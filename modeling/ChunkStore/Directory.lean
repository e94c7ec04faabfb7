import ChunkStore.Entry
import ChunkStore.Program

/-!
# Directory calls

The three calls that suffice to find and to enumerate chunks. Every call names the
worker thread that makes it.
-/

namespace ChunkStore.Directory

inductive Call where
  | stat (thread : Nat) (path : String)
  | create (thread : Nat) (path : String)
  | list (thread : Nat) (path : String)
  deriving Repr, DecidableEq

abbrev Call.Answer : Call → Type
  | .stat .. => FileInfo
  | .create .. => Unit
  | .list .. => List ListEntry

abbrev interface : Interface := ⟨Call, fun c => Except Failure c.Answer⟩

/-- Makes a call and stops if it fails. -/
def perform (c : Call) : Program interface c.Answer :=
  .ask c fun reply => .ofExcept reply

def stat (thread : Nat) (path : String) : Program interface FileInfo := perform (.stat thread path)

/-- Creates a folder; one that exists is no failure. -/
def create (thread : Nat) (path : String) : Program interface Unit := perform (.create thread path)

def list (thread : Nat) (path : String) : Program interface (List ListEntry) :=
  perform (.list thread path)

end ChunkStore.Directory

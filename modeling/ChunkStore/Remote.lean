import ChunkStore.Entry
import ChunkStore.Program
import ChunkStore.Transfer

/-!
# Remote file services

The calls that a service must answer to host a storage. Paths in calls are absolute
and in normal form. Failures keep a missing path and an existing target apart from
all other causes, so that a storage can take them for answers.
-/

namespace ChunkStore.Remote

inductive Kind where
  | file
  | folder
  deriving Repr, DecidableEq

structure Metadata where
  name : String
  kind : Kind
  size : Nat := 0
  deriving Repr, DecidableEq

namespace Metadata

def file (name : String) (size : Nat) : Metadata := ⟨name, .file, size⟩

def folder (name : String) : Metadata := ⟨name, .folder, 0⟩

def isFolder (m : Metadata) : Bool := m.kind == .folder

def listed (m : Metadata) : ListEntry :=
  if m.isFolder then .directory m.name else .file m.name m.size

def info (m : Metadata) : FileInfo :=
  if m.isFolder then .directory else .file m.size

end Metadata

/-- A part of a listing. The cursor asks for the next part. -/
structure Page where
  entries : List Metadata
  cursor : String
  hasMore : Bool
  deriving Repr, DecidableEq

inductive Call where
  | listFolder (path : String)
  | listFolderContinue (cursor : String)
  | getMetadata (path : String)
  | createFolder (path : String)
  | delete (path : String)
  | moveEntry (source target : String)
  | upload (path : String) (size : Nat) (body : Source)
  | download (path : String)

abbrev Call.Answer : Call → Type
  | .listFolder _ | .listFolderContinue _ => Page
  | .getMetadata _ => Metadata
  | .createFolder _ | .delete _ | .moveEntry .. | .upload .. => Unit
  | .download _ => Source

abbrev Call.Reply (c : Call) : Type := Except Failure c.Answer

structure Profile where
  provider : String
  displayName : String
  capabilities : Capabilities
  deriving Repr, DecidableEq

end ChunkStore.Remote

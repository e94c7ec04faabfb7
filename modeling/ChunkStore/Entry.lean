import ChunkStore.ChunkId
import ChunkStore.Text.Blank

/-!
# What a storage reports

Listing entries, the answer to a stat, the place of a chunk, a chunk met on a walk,
and the properties that a storage declares.
-/

namespace ChunkStore

/-- An immediate child of a listed folder. The names of folders end with `/`. -/
structure ListEntry where
  name : String
  size : Nat
  deriving Repr, DecidableEq

namespace ListEntry

def file (name : String) (size : Nat) : ListEntry := ⟨name, size⟩

def directory (name : String) : ListEntry := ⟨name ++ "/", 0⟩

def isDirectory (e : ListEntry) : Bool := e.name.toList.getLast? == some '/'

def baseName (e : ListEntry) : String :=
  String.ofList (Text.dropEndWhile (· == '/') e.name.toList)

end ListEntry

/-- The answer to a stat. A missing path is an answer, not a failure. -/
structure FileInfo where
  present : Bool := false
  isDirectory : Bool := false
  size : Nat := 0
  deriving Repr, DecidableEq

namespace FileInfo

def missing : FileInfo := {}

def file (size : Nat) : FileInfo := ⟨true, false, size⟩

def directory : FileInfo := ⟨true, true, 0⟩

end FileInfo

/-- Where a chunk is, or where it would be written. Its path is relative to the
storage root. -/
structure ChunkLocation where
  path : String
  present : Bool
  size : Nat
  deriving Repr, DecidableEq

namespace ChunkLocation

def found (path : String) (size : Nat) : ChunkLocation := ⟨path, true, size⟩

def missing (path : String) : ChunkLocation := ⟨path, false, 0⟩

end ChunkLocation

structure ChunkListing where
  id : ChunkId
  path : String
  size : Nat
  fossil : Bool
  deriving Repr, DecidableEq

structure Capabilities where
  needsLocalCache : Bool := false
  /-- A move may stand for a delete and an upload. -/
  supportsMove : Bool := false
  /-- A file just written shows at once in listings and stats. -/
  stronglyConsistent : Bool := false
  fastListing : Bool := false
  deriving Repr, DecidableEq

end ChunkStore

import ChunkStore.Path
import ChunkStore.Remote
import Std.Data.ExtTreeMap

/-!
# Trees of files

The folders and files of a store in memory, each under its path. The map is flat:
that every node lies in a folder is kept by the operations. Creating a node creates
the folders above it, and removing or moving a folder takes along all that is below.
-/

namespace ChunkStore

inductive Node where
  | folder
  | file (content : Bytes)
  deriving Repr, DecidableEq

namespace Node

def isFolder : Node → Bool
  | folder => true
  | file _ => false

end Node

abbrev Tree := Std.ExtTreeMap Path Node

namespace Tree

def bare : Tree := (∅ : Tree).insert .root .folder

/-- A node as the service reports it. The root has no name. -/
def metadata (p : Path) : Node → Remote.Metadata
  | .folder => .folder (p.name?.getD "")
  | .file content => .file (p.name?.getD "") content.length

def children (t : Tree) (p : Path) : List Remote.Metadata :=
  t.toList.filterMap fun (q, node) =>
    if q.parent? = some p then some (metadata q node) else none

/-- Puts a folder at each of `ancestors` in turn, unless one is there; stops at the
first that is a file. -/
def ensureFolders (t : Tree) : (ancestors : List Path) → Except Failure Unit × Tree
  | [] => (.ok (), t)
  | p :: ancestors =>
    match t.get? p with
    | some .folder => ensureFolders t ancestors
    | some (.file _) => (.error (.conflict p.toString), t)
    | none => ensureFolders (t.insert p .folder) ancestors

def ensureParents (t : Tree) (p : Path) : Except Failure Unit × Tree :=
  t.ensureFolders p.ancestors

def createFolder (t : Tree) (p : Path) : Except Failure Unit × Tree :=
  if t.contains p then (.error (.conflict p.toString), t)
  else
    match t.ensureParents p with
    | (.ok (), t) => (.ok (), t.insert p .folder)
    | refused => refused

def delete (t : Tree) (p : Path) : Except Failure Unit × Tree :=
  if p = .root then
    (.error (.providerApi "memory" "path_lookup/malformed_path: cannot delete root"), t)
  else if t.contains p then (.ok (), t.filter fun q _ => !q.isWithin p)
  else (.error (.notFound p.toString), t)

/-- Takes each of `moved` in turn from below `source` to the same place below
`target`. -/
def rekey (source target : Path) : (moved : List Path) → Tree → Tree
  | [], t => t
  | p :: moved, t =>
    match t.get? p with
    | some node =>
      let q : Path := ⟨target.segments ++ p.segments.drop source.segments.length⟩
      rekey source target moved ((t.erase p).insert q node)
    | none => rekey source target moved t

def move (t : Tree) (source target : Path) : Except Failure Unit × Tree :=
  if !t.contains source then (.error (.notFound source.toString), t)
  else if t.contains target then (.error (.conflict target.toString), t)
  else if source = .root ∨ target.isWithin source then
    (.error (.providerApi "memory" ("to/cant_move_folder_into_itself: " ++ source.toString ++
      " -> " ++ target.toString)), t)
  else
    match t.ensureParents target with
    | (.ok (), t) => (.ok (), rekey source target (t.keys.filter (·.isWithin source)) t)
    | refused => refused

/-- Puts a file at a path, in place of a file that is there. -/
def store (t : Tree) (p : Path) (content : Bytes) : Except Failure Unit × Tree :=
  if (t.get? p).any Node.isFolder then (.error (.conflict p.toString), t)
  else
    match t.ensureParents p with
    | (.ok (), t) => (.ok (), t.insert p (.file content))
    | refused => refused

def fetch (t : Tree) (p : Path) : Except Failure Bytes :=
  match t.get? p with
  | some (.file content) => .ok content
  | some .folder => .error (.notAFile p.toString)
  | none => .error (.notFound p.toString)

end Tree

end ChunkStore

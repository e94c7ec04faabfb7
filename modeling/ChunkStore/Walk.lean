import ChunkStore.Locator

/-!
# Walking the shard tree

Enumerates every chunk breadth first. The id of a chunk is put together from the
names of the shard folders above its file and the stem of the file's name. Folders
that are no shards and files that form no id are passed over.
-/

namespace ChunkStore.Walk

open Directory

/-- A folder of the tree, with the digits that its shards stand for. -/
structure Shard where
  dir : Path
  digits : String
  deriving Repr, DecidableEq

def isShardName (name : String) : Bool :=
  name.utf8ByteSize == 2 && name.toList.all Text.isHexDigit

def stem (name : String) : String × Bool :=
  let marked := ChunkId.fossilSuffix.toList
  if marked.isSuffixOf name.toList then
    (String.ofList (name.toList.take (name.toList.length - marked.length)), true)
  else (name, false)

def subshard? (s : Shard) (e : ListEntry) : Option Shard :=
  if e.isDirectory && isShardName e.baseName then
    some ⟨s.dir.join e.baseName, s.digits ++ e.baseName⟩
  else none

def chunk? (s : Shard) (e : ListEntry) : Option ChunkListing :=
  if e.isDirectory then none
  else
    let (stem, fossil) := stem e.baseName
    match ChunkId.parse (s.digits ++ stem) with
    | .ok id => some ⟨id, (s.dir.join e.baseName).toString, e.size, fossil⟩
    | .error _ => none

/-- Lists the folders of `pending` in turn and puts the shards met at its end. `found`
holds the chunks met before. At most `budget` folders are listed. -/
def visit (thread : Nat) :
    (budget : Nat) → (pending : List Shard) → (found : List ChunkListing) →
      Program interface (List ChunkListing)
  | _, [], found => return found
  | 0, _ :: _, _ => .spent
  | budget + 1, s :: pending, found => do
    let entries ← list thread s.dir.toString
    visit thread budget (pending ++ entries.filterMap (subshard? s))
      (found ++ entries.filterMap (chunk? s))

def chunks (thread budget : Nat) : Program interface (List ChunkListing) := do
  let info ← stat thread Locator.chunks.toString
  if info.isDirectory then visit thread budget [⟨Locator.chunks, ""⟩] [] else return []

end ChunkStore.Walk

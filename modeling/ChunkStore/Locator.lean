import ChunkStore.Directory
import ChunkStore.Path

/-!
# Finding chunks

A chunk `ab12cd34ef` may lie at `/chunks/ab12cd34ef`, at `/chunks/ab/12cd34ef`, at
`/chunks/ab/12/cd34ef` and so on. The first `nesting` shard levels always exist and
are created on the way down. Below them a level exists only once something was
placed in it, so the search stops at the first shard folder that is missing: a chunk
moves only by an explicit move, and what was never placed is not further down.
-/

namespace ChunkStore.Locator

open Directory

def chunks : Path := .parse ChunkId.chunksDir

def filePath (dir : Path) (id : ChunkId) (level : Nat) (fossil : Bool) : String :=
  (dir.join (id.fileName level fossil)).toString

def probe (nesting thread : Nat) (id : ChunkId) (fossil : Bool) (level : Nat) (dir : Path) :
    Program interface (Option ChunkLocation) :=
  if nesting ≤ level then do
    let path := filePath dir id level fossil
    let info ← stat thread path
    return if info.present then some (.found path info.size) else none
  else return none

/-- Searches `remaining` levels below `dir`, the shard folder at `level`. -/
def descend (nesting thread : Nat) (id : ChunkId) (fossil : Bool) :
    (remaining level : Nat) → (dir : Path) → Program interface ChunkLocation
  | 0, _, _ => .failed (.chunkNestingExhausted id.text id.levels)
  | remaining + 1, level, dir => do
    match ← probe nesting thread id fossil level dir with
    | some found => return found
    | none =>
      let shard := dir.join (id.shard level)
      let info ← stat thread shard.toString
      if info.present then descend nesting thread id fossil remaining (level + 1) shard
      else if level < nesting then do
        create thread shard.toString
        descend nesting thread id fossil remaining (level + 1) shard
      else return .missing (filePath dir id level fossil)

/-- Finds a chunk, or its fossil: the file that exists, or the path at which it would
be written. It fails when every level is a folder and none holds the file. -/
def locate (nesting thread : Nat) (id : ChunkId) (fossil : Bool) :
    Program interface ChunkLocation :=
  descend nesting thread id fossil id.levels 0 chunks

end ChunkStore.Locator

import ChunkStore.LocalFiles
import ChunkStore.Memory
import ChunkStore.Session

/-!
# Sessions without a world

A world for sessions that is a value: a service in memory, a tree of local files, and
what was printed so far. No server can be reached from it.
-/

namespace ChunkStore.Session

structure World where
  service : Memory.World := {}
  files : Tree := .bare
  results : Bytes := []
  notes : Bytes := []

namespace World

/-- The failure of every post where nothing carries it to a server. -/
def unreachable : Failure := .network "no server can be reached"

def serve : (c : Call) → World → c.Reply × World
  | .memory call, w =>
    let (reply, service) := w.service.answer call
    (reply, { w with service })
  | .post _, w => (.error unreachable, w)
  | .clock, w => (w.service.now, w)
  | .sleepUntil time, w =>
    ((), { w with service := { w.service with now := max w.service.now time } })
  | .load file, w => ((LocalFiles.load w.files file).mapError FileFault.failure, w)
  | .save file content, w =>
    match LocalFiles.save w.files file content with
    | .ok files => (.ok (), { w with files })
    | .error fault => (.error fault.failure, w)
  | .print content, w => ((), { w with results := w.results ++ content })
  | .note content, w => ((), { w with notes := w.notes ++ content })

end World

end ChunkStore.Session

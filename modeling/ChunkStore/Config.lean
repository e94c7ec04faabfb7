import ChunkStore.Path
import ChunkStore.Failure
import ChunkStore.Rate

/-!
# Storage configuration

The settings shared by every storage, whatever the remote.
-/

namespace ChunkStore

structure Config where
  storageDir : String := ""
  threads : Nat := 1
  /-- Shard levels that exist before any file of a chunk is looked for. -/
  minimumNesting : Nat := 0
  downloadLimit : RateLimit := .unlimited
  uploadLimit : RateLimit := .unlimited
  deriving Repr, DecidableEq

namespace Config

def normalizedDir (c : Config) : String := normalize c.storageDir

def validate (c : Config) : Except Failure Unit :=
  if c.threads = 0 then .error (.invalidConfig "threads must be at least 1") else .ok ()

end Config

end ChunkStore

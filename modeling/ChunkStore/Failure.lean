/-!
# Failures

Every way in which an operation of the store can fail, the text shown for it, and
the classes of failure that callers tell apart.
-/

namespace ChunkStore

inductive Failure where
  | notFound (subject : String)
  | conflict (subject : String)
  | notAFile (path : String)
  | invalidChunkId (id reason : String)
  | invalidThreadIndex (index threads : Nat)
  | invalidConfig (detail : String)
  /-- Every shard level of a chunk exists and none of them holds its file. -/
  | chunkNestingExhausted (id : String) (levels : Nat)
  | io (detail : String)
  | network (detail : String)
  | authRequired (detail : String)
  | authFailed (detail : String)
  /-- Seconds to wait before trying again, if the remote named them. -/
  | rateLimited (retryAfter : Option Nat)
  | providerApi (provider detail : String)
  | serialization (detail : String)
  deriving Repr, DecidableEq

namespace Failure

def message : Failure → String
  | notFound subject => "Path not found: " ++ subject
  | conflict subject => "Conflict: " ++ subject
  | notAFile path => "Not a file: " ++ path
  | invalidChunkId id reason => "Invalid chunk id '" ++ id ++ "': " ++ reason
  | invalidThreadIndex index threads =>
    "Thread index " ++ index.repr ++ " out of range for " ++ threads.repr ++ " client(s)"
  | invalidConfig detail => "Invalid configuration: " ++ detail
  | chunkNestingExhausted id levels =>
    "Chunk " ++ id ++ " is still not found after searching " ++ levels.repr ++
      " levels of directories"
  | io detail => "IO error: " ++ detail
  | network detail => "Network error: " ++ detail
  | authRequired detail => "Authentication required: " ++ detail
  | authFailed detail => "Authentication failed: " ++ detail
  | rateLimited (some seconds) => "Rate limited: retry after Some(" ++ seconds.repr ++ ")s"
  | rateLimited none => "Rate limited: retry after Nones"
  | providerApi provider detail => "Provider API error (" ++ provider ++ "): " ++ detail
  | serialization detail => "Serialization error: " ++ detail

def isRetryable : Failure → Bool
  | network _ | rateLimited _ => true
  | _ => false

def isAuth : Failure → Bool
  | authRequired _ | authFailed _ => true
  | _ => false

def isNotFound : Failure → Bool
  | notFound _ => true
  | _ => false

def isConflict : Failure → Bool
  | conflict _ => true
  | _ => false

/-- The chunk tree or its configuration is corrupt, so callers should stop. -/
def isFatal : Failure → Bool
  | chunkNestingExhausted _ _ => true
  | _ => false

end Failure

end ChunkStore

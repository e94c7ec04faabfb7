import ChunkStore.Config
import ChunkStore.Pool
import ChunkStore.Remote
import ChunkStore.Walk

/-!
# Chunk storage

A storage lives in one folder of a remote file service. The paths given to its
operations are relative to that folder and are brought into normal form before any
client sees them. Each operation runs on the client of the thread that asks for it.

A delete that finds nothing, a folder that exists already and a stat of a missing
path are answers here, although the service reports each as a failure.
-/

namespace ChunkStore

structure Storage where
  profile : Remote.Profile
  clients : Pool
  root : Path
  nesting : Nat
  /-- The ceilings of a single client. -/
  downloadLimit : RateLimit
  uploadLimit : RateLimit

namespace Storage

inductive Call where
  | remote (client : Nat) (call : Remote.Call)
  | clock
  | sleepUntil (time : Millis)

abbrev Call.Reply : Call → Type
  | .remote _ call => call.Reply
  | .clock => Millis
  | .sleepUntil _ => Unit

abbrev interface : Interface := ⟨Call, Call.Reply⟩

def id (s : Storage) : String := s.profile.provider ++ ":" ++ s.root.toString

/-- The absolute path on the service for a path relative to the storage root. -/
def remotePath (s : Storage) (path : String) : String :=
  (s.root.resolve (.parse path)).toString

def send (s : Storage) (thread : Nat) (call : Remote.Call) :
    Program interface call.Reply := do
  let client ← .ofExcept (s.clients.get thread)
  .ask (.remote client.val call) .done

def perform (s : Storage) (thread : Nat) (call : Remote.Call) :
    Program interface call.Answer := do
  .ofExcept (← s.send thread call)

/-- Follows the pages of a listing after `page`, of which `entries` were on it and the
pages before. At most `budget` further pages are asked for. -/
def listFrom (s : Storage) (thread : Nat) :
    (budget : Nat) → Remote.Page → (entries : List ListEntry) →
      Program interface (List ListEntry)
  | budget, page, entries =>
    let entries := entries ++ page.entries.map Remote.Metadata.listed
    if page.hasMore then
      match budget with
      | 0 => .spent
      | budget + 1 => do
        let next ← s.perform thread (.listFolderContinue page.cursor)
        listFrom s thread budget next entries
    else return entries

def list (s : Storage) (thread : Nat) (dir : String) (budget : Nat := Program.ample) :
    Program interface (List ListEntry) := do
  let page ← s.perform thread (.listFolder (s.remotePath dir))
  s.listFrom thread budget page []

def delete (s : Storage) (thread : Nat) (path : String) : Program interface Unit := do
  match ← s.send thread (.delete (s.remotePath path)) with
  | .error (.notFound _) => return ()
  | reply => .ofExcept reply

def move (s : Storage) (thread : Nat) (source target : String) : Program interface Unit :=
  s.perform thread (.moveEntry (s.remotePath source) (s.remotePath target))

def createDirectory (s : Storage) (thread : Nat) (dir : String) : Program interface Unit := do
  match ← s.send thread (.createFolder (s.remotePath dir)) with
  | .error (.conflict _) => return ()
  | reply => .ofExcept reply

def stat (s : Storage) (thread : Nat) (path : String) : Program interface FileInfo := do
  match ← s.send thread (.getMetadata (s.remotePath path)) with
  | .ok metadata => return metadata.info
  | .error (.notFound _) => return .missing
  | .error e => .failed e

def directory (s : Storage) (budget : Nat := Program.ample) :
    (c : Directory.Call) → Program interface (Except Failure c.Answer)
  | .stat thread path => (s.stat thread path).attempt
  | .create thread path => (s.createDirectory thread path).attempt
  | .list thread path => (s.list thread path budget).attempt

def findChunk (s : Storage) (thread : Nat) (id : ChunkId) (fossil : Bool) :
    Program interface ChunkLocation :=
  (Locator.locate s.nesting thread id fossil).interpret s.directory

def listChunks (s : Storage) (thread : Nat) (budget : Nat := Program.ample) :
    Program interface (List ChunkListing) :=
  (Walk.chunks thread budget).interpret (s.directory budget)

/-- The content of a file, read no faster than the download limit. -/
def download (s : Storage) (thread : Nat) (path : String) : Program interface Bytes := do
  let source ← s.perform thread (.download (s.remotePath path))
  let now ← (.ask .clock .done : Program interface Millis)
  let (result, finished) := source.copy s.downloadLimit now
  let () ← (.ask (.sleepUntil finished) .done : Program interface Unit)
  .ofExcept result

def upload (s : Storage) (thread : Nat) (path : String) (content : Bytes) :
    Program interface Unit :=
  s.perform thread
    (.upload (s.remotePath path) content.length (.ofContent content s.uploadLimit))

/-- Builds a storage on a pool of clients, one for each configured thread, and makes
sure that its root folder exists. -/
def create (profile : Remote.Profile) (clients : Pool) (config : Config) :
    Program interface Storage := do
  .ofExcept config.validate
  if clients.size ≠ config.threads then
    .failed (.invalidConfig (clients.size.repr ++ " client(s) supplied for " ++
      config.threads.repr ++ " configured thread(s)"))
  else
    let storage : Storage :=
      { profile, clients
        root := .parse config.storageDir
        nesting := config.minimumNesting
        downloadLimit := config.downloadLimit.share clients.size
        uploadLimit := config.uploadLimit.share clients.size }
    if storage.root.isRoot then return storage
    else do
      storage.createDirectory 0 ""
      return storage

def openWith (profile : Remote.Profile) (config : Config) : Program interface Storage := do
  .ofExcept config.validate
  create profile (← .ofExcept (Pool.ofSize config.threads)) config

end Storage

end ChunkStore

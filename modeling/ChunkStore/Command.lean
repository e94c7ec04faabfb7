import ChunkStore.Session
import ChunkStore.Text.Color
import ChunkStore.Text.Grid
import ChunkStore.Text.Size

/-!
# Commands

What a user can do with a store from a console, and what is printed for it. A command
runs on the first client of the storage. Of a command with several paths, those before
the first failure are done.
-/

namespace ChunkStore

inductive Command where
  /-- Lists a folder, with types and sizes if `long`. -/
  | list (dir : String) (long human : Bool)
  | stat (path : String)
  | makeFolders (paths : List String)
  | remove (paths : List String)
  | move (source target : String)
  | findChunk (id : String) (fossil : Bool)
  | listChunks (human : Bool)
  /-- Downloads a file to a local one, or prints it. -/
  | get (path : String) (file : Option String)
  | put (file path : String)
  | capabilities
  deriving Repr, DecidableEq

structure Console where
  storage : Storage
  serve : (c : Storage.Call) → Program Session.interface c.Reply
  palette : Text.Palette

namespace Console

open Session (say note print)

/-- The client that commands run on. -/
def thread : Nat := 0

def use {α : Type} (c : Console) (p : Program Storage.interface α) :
    Program Session.interface α := p.interpret c.serve

def sizeText (n : Nat) (human : Bool) : String := if human then Text.size n else n.repr

def sizeLine (n : Nat) : String := "  Size: " ++ n.repr ++ " (" ++ Text.size n ++ ")"

def flagText (c : Console) (flag : Bool) : String :=
  if flag then c.palette.paint [.green] "yes" else c.palette.paint [.red] "no"

def sayTable (header : List String) (rows : List (List String)) :
    Program Session.interface Unit :=
  (Text.Grid.lines (header :: rows)).forM say

def entryRow (c : Console) (human : Bool) (e : ListEntry) : List String :=
  if e.isDirectory then [c.palette.paint [.cyan] "d", "-", e.baseName]
  else ["-", sizeText e.size human, e.name]

def list (c : Console) (dir : String) (long human : Bool) :
    Program Session.interface Unit := do
  let entries ← c.use (c.storage.list thread dir)
  if entries.isEmpty then say "(empty directory)"
  else if long then sayTable ["Type", "Size", "Name"] (entries.map (c.entryRow human))
  else entries.forM fun e => say e.name

def stat (c : Console) (path : String) : Program Session.interface Unit := do
  let info ← c.use (c.storage.stat thread path)
  say ("  Path: " ++ normalize path)
  if !info.present then say ("  " ++ c.palette.paint [.yellow] "does not exist")
  else if info.isDirectory then say "  Type: directory"
  else do
    say "  Type: file"
    say (sizeLine info.size)

def makeFolders (c : Console) (paths : List String) : Program Session.interface Unit :=
  paths.forM fun path => do
    c.use (c.storage.createDirectory thread path)
    say ("Created " ++ path)

def remove (c : Console) (paths : List String) : Program Session.interface Unit :=
  paths.forM fun path => do
    c.use (c.storage.delete thread path)
    say ("Removed " ++ path)

def move (c : Console) (source target : String) : Program Session.interface Unit := do
  c.use (c.storage.move thread source target)
  say ("Moved " ++ source ++ " -> " ++ target)

def findChunk (c : Console) (id : String) (fossil : Bool) :
    Program Session.interface Unit := do
  let id ← .ofExcept (ChunkId.parse id)
  let location ← c.use (c.storage.findChunk thread id fossil)
  say ("  Path: " ++ location.path)
  if location.present then do
    say ("  Found: " ++ c.palette.paint [.green] "yes")
    say (sizeLine location.size)
  else say ("  Found: " ++ c.palette.paint [.yellow] "no")

def chunkRow (human : Bool) (l : ChunkListing) : List String :=
  [l.id.text, sizeText l.size human, if l.fossil then "fossil" else "", l.path]

def listChunks (c : Console) (human : Bool) : Program Session.interface Unit := do
  let chunks ← c.use (c.storage.listChunks thread)
  if chunks.isEmpty then say "(no chunks)"
  else do
    sayTable ["Chunk", "Size", "Fossil", "Path"] (chunks.map (chunkRow human))
    say (chunks.length.repr ++ " chunks (" ++ (chunks.countP (·.fossil)).repr ++ " fossils), " ++
      Text.size (chunks.foldl (fun n l => n + l.size) 0))

def get (c : Console) (path : String) (file : Option String) :
    Program Session.interface Unit := do
  let content ← c.use (c.storage.download thread path)
  match file with
  | some file => do
    Session.save file content
    note ("Downloaded " ++ path ++ " (" ++ Text.size content.length ++ ")")
  | none => print content

def put (c : Console) (file path : String) : Program Session.interface Unit := do
  let content ← Session.load file
  c.use (c.storage.upload thread path content)
  say ("Uploaded " ++ file ++ " -> " ++ path ++ " (" ++ Text.size content.length ++ ")")

def capabilities (c : Console) : Program Session.interface Unit := do
  let properties := c.storage.profile.capabilities
  say ("Storage: " ++ c.storage.id ++ " (" ++ c.storage.profile.displayName ++ ")")
  say ("  Needs local cache:   " ++ c.flagText properties.needsLocalCache)
  say ("  Supports move:       " ++ c.flagText properties.supportsMove)
  say ("  Strongly consistent: " ++ c.flagText properties.stronglyConsistent)
  say ("  Fast listing:        " ++ c.flagText properties.fastListing)

def perform (c : Console) : Command → Program Session.interface Unit
  | .list dir long human => c.list dir long human
  | .stat path => c.stat path
  | .makeFolders paths => c.makeFolders paths
  | .remove paths => c.remove paths
  | .move source target => c.move source target
  | .findChunk id fossil => c.findChunk id fossil
  | .listChunks human => c.listChunks human
  | .get path file => c.get path file
  | .put file path => c.put file path
  | .capabilities => c.capabilities

end Console

end ChunkStore

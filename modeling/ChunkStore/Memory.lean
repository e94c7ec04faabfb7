import ChunkStore.Memory.Tree
import ChunkStore.Storage

/-!
# A remote in memory

A file service whose files are kept in memory. All clients see the same tree.
Parents are created implicitly, deletes are recursive, and targets that exist are
conflicts. Listings come in pages: the rest of a listing is kept under the number of
its latest page until its cursor is presented, and only the latest `maxOpen` listings
are kept.

Time passes only while the body of an upload is read.
-/

namespace ChunkStore

inductive Memory.Record where
  | listFolder (path : String)
  | listFolderContinue (cursor : String)
  | getMetadata (path : String)
  | createFolder (path : String)
  | delete (path : String)
  | moveEntry (source target : String)
  | upload (path : String)
  | download (path : String)
  deriving Repr, DecidableEq

structure Memory where
  tree : Tree := .bare
  /-- The entries still to come of every open listing, by the number of its latest
  page, in ascending order. -/
  listings : List (Nat × List Remote.Metadata) := []
  served : Nat := 0
  pageSize : Nat := 2000
  offline : Bool := false
  calls : List Memory.Record := []

namespace Memory

def profile : Remote.Profile where
  provider := "memory"
  displayName := "In-memory"
  capabilities :=
    { needsLocalCache := false, supportsMove := true, stronglyConsistent := true
      fastListing := true }

/-- The listings kept open before the oldest is dropped. -/
def maxOpen : Nat := 64

def cursorMark : String := "cursor-"

def cursor (number : Nat) : String := cursorMark ++ number.repr

/-- The number that a cursor names, in any of its spellings. -/
def cursorNumber? (text : String) : Option Nat :=
  let mark := cursorMark.toList
  if mark.isPrefixOf text.toList then Text.signedWord? (text.toList.drop mark.length) else none

/-- Notes a call and answers it, unless the service cannot be reached. -/
def receive {α : Type} (m : Memory) (record : Record)
    (serve : Memory → Except Failure α × Memory) : Except Failure α × Memory :=
  let m := { m with calls := m.calls ++ [record] }
  if m.offline then (.error (.network "remote unreachable"), m) else serve m

def onTree {α : Type} (m : Memory) (change : Tree → Except Failure α × Tree) :
    Except Failure α × Memory :=
  let (result, tree) := change m.tree
  (result, { m with tree })

/-- Serves the first page of `pending` and keeps the rest under its number. -/
def page (m : Memory) (pending : List Remote.Metadata) : Remote.Page × Memory :=
  let size := max 1 m.pageSize
  let rest := pending.drop size
  let number := m.served + 1
  let hasMore := !rest.isEmpty
  let listings :=
    if hasMore then
      let kept := m.listings ++ [(number, rest)]
      kept.drop (kept.length - maxOpen)
    else m.listings
  (⟨pending.take size, cursor number, hasMore⟩, { m with served := number, listings })

def listFolder (m : Memory) (path : String) : Except Failure Remote.Page × Memory :=
  let p := Path.parse path
  m.receive (.listFolder p.toString) fun m =>
    match m.tree.get? p with
    | some .folder =>
      let (page, m) := m.page (m.tree.children p)
      (.ok page, m)
    | some (.file _) => (.error (.providerApi "memory" ("path/not_folder: " ++ p.toString)), m)
    | none => (.error (.notFound p.toString), m)

def listFolderContinue (m : Memory) (cursor : String) : Except Failure Remote.Page × Memory :=
  m.receive (.listFolderContinue cursor) fun m =>
    match (cursorNumber? cursor).bind fun n => (m.listings.find? (·.1 == n)) with
    | some (number, pending) =>
      let (page, m) := { m with listings := m.listings.filter (·.1 != number) }.page pending
      (.ok page, m)
    | none => (.error (.providerApi "memory" ("reset: unknown cursor " ++ cursor)), m)

def getMetadata (m : Memory) (path : String) : Except Failure Remote.Metadata × Memory :=
  let p := Path.parse path
  m.receive (.getMetadata p.toString) fun m =>
    match m.tree.get? p with
    | some node => (.ok (Tree.metadata p node), m)
    | none => (.error (.notFound p.toString), m)

def createFolder (m : Memory) (path : String) : Except Failure Unit × Memory :=
  let p := Path.parse path
  m.receive (.createFolder p.toString) fun m => m.onTree (·.createFolder p)

def delete (m : Memory) (path : String) : Except Failure Unit × Memory :=
  let p := Path.parse path
  m.receive (.delete p.toString) fun m => m.onTree (·.delete p)

def moveEntry (m : Memory) (source target : String) : Except Failure Unit × Memory :=
  let p := Path.parse source
  let q := Path.parse target
  m.receive (.moveEntry p.toString q.toString) fun m => m.onTree (·.move p q)

def upload (m : Memory) (path : String) (body : Source) (now : Millis) :
    Except Failure Unit × Memory × Millis :=
  let p := Path.parse path
  let (accepted, m) := m.receive (.upload p.toString) fun m => (.ok (), m)
  match accepted with
  | .error e => (.error e, m, now)
  | .ok () =>
    match body.drain now with
    | (.error e, now) => (.error e, m, now)
    | (.ok content, now) =>
      let (result, m) := m.onTree (·.store p content)
      (result, m, now)

def download (m : Memory) (path : String) : Except Failure Source × Memory :=
  let p := Path.parse path
  m.receive (.download p.toString) fun m => ((m.tree.fetch p).map .ofBytes, m)

def putFile (m : Memory) (path : String) (content : Bytes) : Except Failure Unit × Memory :=
  m.onTree (·.store (.parse path) content)

def content? (m : Memory) (path : String) : Option Bytes :=
  match m.tree.get? (.parse path) with
  | some (.file content) => some content
  | _ => none

def isFolder (m : Memory) (path : String) : Bool :=
  (m.tree.get? (.parse path)).any Node.isFolder

def holds (m : Memory) (path : String) : Bool := m.tree.contains (.parse path)

structure World where
  remote : Memory := {}
  now : Millis := 0

namespace World

def instantly {α : Type} (w : World) (serve : Memory → Except Failure α × Memory) :
    Except Failure α × World :=
  let (reply, remote) := serve w.remote
  (reply, { w with remote })

def answer : (c : Remote.Call) → World → c.Reply × World
  | .listFolder path, w => w.instantly (·.listFolder path)
  | .listFolderContinue cursor, w => w.instantly (·.listFolderContinue cursor)
  | .getMetadata path, w => w.instantly (·.getMetadata path)
  | .createFolder path, w => w.instantly (·.createFolder path)
  | .delete path, w => w.instantly (·.delete path)
  | .moveEntry source target, w => w.instantly (·.moveEntry source target)
  | .upload path _ body, w =>
    let (result, remote, now) := w.remote.upload path body w.now
    (result, ⟨remote, now⟩)
  | .download path, w => w.instantly (·.download path)

/-- Answers what a storage asks. Every client reaches the same service. -/
def serve : (c : Storage.Call) → World → c.Reply × World
  | .remote _ call, w => w.answer call
  | .clock, w => (w.now, w)
  | .sleepUntil time, w => ((), { w with now := max w.now time })

def run {α : Type} (w : World) (p : Program Storage.interface α) :
    Option (Except Failure α) × World :=
  p.run serve w

end World

end Memory

end ChunkStore

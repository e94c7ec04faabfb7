import ChunkStore.Proofs.ShardLayout

/-!
# A chunk store is a map

A storage that holds ids of one length, opened on a fresh service, answers every sequence
of requests as a map from ids and fossil marks to contents would. A request is put together
from the operations of the storage the way its users do. The invariant is that the tree is
laid out for the map; each request keeps it, and its result can be read off the map.
-/

namespace ChunkStore

open Memory (World)

inductive Request where
  | put (id : ChunkId) (content : Bytes)
  | get (id : ChunkId) (fossil : Bool)
  | fossilize (id : ChunkId)
  | remove (id : ChunkId) (fossil : Bool)
  | enumerate

/-- What a request reports: where the chunk was found, and what else it brought. -/
inductive Report where
  | placed (location : ChunkLocation)
  | read (location : ChunkLocation) (content? : Option Bytes)
  | moved (location : ChunkLocation)
  | removed (location : ChunkLocation)
  | listed (found : List ChunkListing)

namespace Request

/-- The request names ids of one length only. -/
def Sized (levels : Nat) : Request → Prop
  | put id _ => id.levels = levels
  | get id _ => id.levels = levels
  | fossilize id => id.levels = levels
  | remove id _ => id.levels = levels
  | enumerate => True

def program (s : Storage) (thread : Nat) : Request → Program Storage.interface Report
  | put id content => do
    let location ← s.findChunk thread id false
    s.upload thread location.path content
    return .placed location
  | get id fossil => do
    let location ← s.findChunk thread id fossil
    if location.present then return .read location (some (← s.download thread location.path))
    else return .read location none
  | fossilize id => do
    let location ← s.findChunk thread id false
    if location.present then
      s.move thread location.path (location.path ++ ChunkId.fossilSuffix)
    return .moved location
  | remove id fossil => do
    let location ← s.findChunk thread id fossil
    s.delete thread location.path
    return .removed location
  | enumerate => do return .listed (← s.listChunks thread)

end Request

namespace Storage

variable {s : Storage} {thread levels : Nat} {files : Files} {w : World} {id : ChunkId}
  {fossil : Bool} {content : Bytes}

/-- What a map does with a request, and the map after it. -/
inductive Serves (s : Storage) (files : Files) : Request → Except Failure Report → Files → Prop
  | put (id : ChunkId) (content : Bytes) :
      Serves s files (.put id content) (.ok (.placed (s.location id false (files id false))))
        (files.set id false (some content))
  | get (id : ChunkId) (fossil : Bool) :
      Serves s files (.get id fossil)
        (.ok (.read (s.location id fossil (files id fossil)) (files id fossil))) files
  | fossilizeMissing {id : ChunkId} (missing : files id false = none) :
      Serves s files (.fossilize id) (.ok (.moved (s.location id false none))) files
  | fossilize {id : ChunkId} {content : Bytes} (live : files id false = some content)
      (vacant : files id true = none) :
      Serves s files (.fossilize id) (.ok (.moved (s.location id false (some content))))
        ((files.set id false none).set id true (some content))
  | fossilizeTaken {id : ChunkId} {content old : Bytes} (live : files id false = some content)
      (taken : files id true = some old) :
      Serves s files (.fossilize id) (.error (.conflict (s.seat id true).toString)) files
  | remove (id : ChunkId) (fossil : Bool) :
      Serves s files (.remove id fossil) (.ok (.removed (s.location id fossil (files id fossil))))
        (files.set id fossil none)
  | enumerate {found : List ChunkListing} (once : found.Nodup)
      (exact : ∀ e, e ∈ found ↔ ∃ id fossil content, files id fossil = some content ∧
        e = s.listing id fossil content) :
      Serves s files .enumerate (.ok (.listed found)) files

/-- What a map does with requests in sequence. -/
inductive Behaves (s : Storage) :
    Files → List Request → List (Option (Except Failure Report)) → Prop
  | done {files : Files} : Behaves s files [] []
  | serve {files files' : Files} {request : Request} {result : Except Failure Report}
      {requests : List Request} {results : List (Option (Except Failure Report))} :
      s.Serves files request result files' → Behaves s files' requests results →
      Behaves s files (request :: requests) (some result :: results)

def serveAll (s : Storage) :
    List (Nat × Request) → World → List (Option (Except Failure Report)) × World
  | [], w => ([], w)
  | (thread, request) :: requests, w =>
    let (result, w) := w.run (request.program s thread)
    let (results, w) := s.serveAll requests w
    (result :: results, w)

/-- A service whose tree is laid out for a map of ids of one length. -/
structure Holds (s : Storage) (levels : Nat) (files : Files) (w : World) : Prop where
  online : w.remote.offline = false
  sound : w.remote.Sound
  layout : s.Layout levels files w.remote.tree
  sized : files.Sized levels

namespace Holds

theorem became {files' : Files} {t' : Tree} {w' : World} (H : s.Holds levels files w)
    (became : w.Became t' w') (layout : s.Layout levels files' t')
    (sized : files'.Sized levels) : s.Holds levels files' w' where
  online := became.offline.trans H.online
  sound := ⟨became.tree ▸ layout.closed,
    became.listings ▸ became.served ▸ H.sound.numbered⟩
  layout := became.tree ▸ layout
  sized := sized

theorem find (H : s.Holds levels files w) (h : thread < s.clients.size) (hr : s.root.Canonical)
    (hn : s.nesting + 1 < levels) (hi : id.levels = levels) (fossil : Bool) :
    ∃ w', w.run (s.findChunk thread id fossil) =
        (some (.ok (s.location id fossil (files id fossil))), w') ∧ s.Holds levels files w' := by
  obtain ⟨r, w', run, searched⟩ := run_findChunk h hr H.online H.layout.closed id fossil
  have layout := H.layout.paved searched.closed searched.paved
    (Nat.le_of_eq (s.length_shardPath id s.nesting))
  rw [layout.ends hn hi searched.ends] at run
  exact ⟨w', run, H.became searched.became layout H.sized⟩

theorem target_location (hn : s.nesting < id.levels) (fossil : Bool) (content? : Option Bytes) :
    s.target (s.location id fossil content?).path = s.seat id fossil :=
  s.target_toString (id.canonical_place hn fossil)

theorem target_fossil (hn : s.nesting < id.levels) (content? : Option Bytes) :
    s.target ((s.location id false content?).path ++ ChunkId.fossilSuffix) = s.seat id true := by
  have marked : (s.location id false content?).path ++ ChunkId.fossilSuffix =
      (id.place s.nesting true).toString := id.toString_place_fossil s.nesting
  rw [marked]
  exact s.target_toString (id.canonical_place hn true)

section Operations

variable (H : s.Holds levels files w) (h : thread < s.clients.size) (hr : s.root.Canonical)
  (hn : s.nesting < levels) (hi : id.levels = levels)
include H h hr hn hi

theorem upload (content? : Option Bytes) (content : Bytes) :
    ∃ w', w.run (s.upload thread (s.location id fossil content?).path content) =
        (some (.ok ()), w') ∧ s.Holds levels (files.set id fossil (some content)) w' := by
  obtain ⟨w', run, became⟩ := run_upload h hr H.online (s.location id fossil content?).path content
  obtain ⟨t', stored, layout⟩ := H.layout.store hr hn hi fossil content
  rw [target_location (hi ▸ hn), stored] at run became
  exact ⟨w', run, H.became became layout (H.sized.set hi _ _)⟩

theorem download (held : files id fossil = some content) :
    ∃ w', w.run (s.download thread (s.location id fossil (some content)).path) =
        (some (.ok content), w') ∧ s.Holds levels files w' := by
  obtain ⟨w', run, became⟩ := run_download h hr H.online (s.location id fossil (some content)).path
  rw [target_location (hi ▸ hn), H.layout.fetch hi held] at run
  exact ⟨w', run, H.became became H.layout H.sized⟩

theorem delete (content? : Option Bytes) :
    ∃ w', w.run (s.delete thread (s.location id fossil content?).path) = (some (.ok ()), w') ∧
      s.Holds levels (files.set id fossil none) w' := by
  obtain ⟨w', run, became⟩ := run_delete h hr H.online (s.location id fossil content?).path
  obtain ⟨deleted, layout⟩ := H.layout.delete hn hi fossil
  rw [target_location (hi ▸ hn)] at run became
  rw [deleted] at run
  exact ⟨w', run, H.became became layout (H.sized.set hi _ _)⟩

theorem move (live : files id false = some content) :
    ∃ r w', w.run (s.move thread (s.location id false (some content)).path
        ((s.location id false (some content)).path ++ ChunkId.fossilSuffix)) = (some r, w') ∧
      match files id true with
      | none => r = .ok () ∧
        s.Holds levels ((files.set id false none).set id true (some content)) w'
      | some _ => r = .error (.conflict (s.seat id true).toString) ∧ s.Holds levels files w' := by
  obtain ⟨w', run, became⟩ := run_move h hr H.online (s.location id false (some content)).path
    ((s.location id false (some content)).path ++ ChunkId.fossilSuffix)
  rw [target_location (hi ▸ hn), target_fossil (hi ▸ hn)] at run became
  refine ⟨_, w', run, ?_⟩
  cases taken : files id true with
  | none =>
    obtain ⟨t', moved, layout⟩ := H.layout.move hr hn hi live taken
    rw [moved] at became ⊢
    exact ⟨rfl, H.became became layout ((H.sized.set hi _ _).set hi _ _)⟩
  | some old =>
    rw [H.layout.move_taken hi live taken] at became ⊢
    exact ⟨rfl, H.became became H.layout H.sized⟩

end Operations

theorem listChunks (H : s.Holds levels files w) (h : thread < s.clients.size)
    (hr : s.root.Canonical) (hn : s.nesting < levels)
    (hs : (w.run (s.listChunks thread)).2.remote.served < Program.ample) :
    ∃ found w', w.run (s.listChunks thread) = (some (.ok found), w') ∧
      s.Holds levels files w' ∧ found.Nodup ∧
      ∀ e, e ∈ found ↔ ∃ id fossil content, files id fossil = some content ∧
        e = s.listing id fossil content := by
  obtain ⟨found, w', run, alike, once, exact⟩ := run_listChunks h hr H.online H.sound hs
  have sound := H.sound.run (s.listChunks thread)
  rw [run] at sound
  refine ⟨found, w', run, ?_, once, fun e => ?_⟩
  · exact ⟨alike.offline.trans H.online, sound, alike.tree ▸ H.layout, H.sized⟩
  · rw [exact, H.layout.lies_iff hn]
    constructor
    · rintro ⟨id, fossil, content, -, held, rfl⟩
      exact ⟨id, fossil, content, held, rfl⟩
    · rintro ⟨id, fossil, content, held, rfl⟩
      exact ⟨id, fossil, content, H.sized _ _ _ held, held, rfl⟩

/-- One request: what a map would answer, and the invariant for the map after it. -/
theorem serve (H : s.Holds levels files w) (h : thread < s.clients.size) (hr : s.root.Canonical)
    (hn : s.nesting + 1 < levels) {request : Request} (sized : request.Sized levels)
    (hs : (w.run (request.program s thread)).2.remote.served < Program.ample) :
    ∃ result files' w', w.run (request.program s thread) = (some result, w') ∧
      s.Serves files request result files' ∧ s.Holds levels files' w' := by
  have hn' : s.nesting < levels := Nat.lt_of_succ_lt hn
  cases request with
  | put id content =>
    obtain ⟨w₁, find, H₁⟩ := H.find h hr hn sized false
    obtain ⟨w₂, upload, H₂⟩ := H₁.upload h hr hn' sized (files id false) content
    refine ⟨_, _, w₂, ?_, .put id content, H₂⟩
    rw [Request.program, Program.bind_eq, run_bind_ok find, Program.bind_eq, run_bind_ok upload]
    rfl
  | get id fossil =>
    obtain ⟨w₁, find, H₁⟩ := H.find h hr hn sized fossil
    cases held : files id fossil with
    | none =>
      refine ⟨_, files, w₁, ?_, .get id fossil, H₁⟩
      rw [Request.program, Program.bind_eq, run_bind_ok find, held]
      rfl
    | some content =>
      obtain ⟨w₂, download, H₂⟩ := H₁.download h hr hn' sized held
      refine ⟨_, files, w₂, ?_, .get id fossil, H₂⟩
      rw [Request.program, Program.bind_eq, run_bind_ok find, held]
      exact run_bind_ok download
  | fossilize id =>
    obtain ⟨w₁, find, H₁⟩ := H.find h hr hn sized false
    cases live : files id false with
    | none =>
      refine ⟨_, files, w₁, ?_, .fossilizeMissing live, H₁⟩
      rw [Request.program, Program.bind_eq, run_bind_ok find, live]
      rfl
    | some content =>
      obtain ⟨r, w₂, move, after⟩ := H₁.move h hr hn' sized live
      cases other : files id true with
      | none =>
        rw [other] at after
        obtain ⟨rfl, H₂⟩ := after
        refine ⟨_, _, w₂, ?_, .fossilize live other, H₂⟩
        rw [Request.program, Program.bind_eq, run_bind_ok find, live]
        exact run_bind_ok move
      | some old =>
        rw [other] at after
        obtain ⟨rfl, H₂⟩ := after
        refine ⟨_, files, w₂, ?_, .fossilizeTaken live other, H₂⟩
        rw [Request.program, Program.bind_eq, run_bind_ok find, live]
        exact run_bind_error move
  | remove id fossil =>
    obtain ⟨w₁, find, H₁⟩ := H.find h hr hn sized fossil
    obtain ⟨w₂, delete, H₂⟩ := H₁.delete h hr hn' sized (files id fossil)
    refine ⟨_, _, w₂, ?_, .remove id fossil, H₂⟩
    rw [Request.program, Program.bind_eq, run_bind_ok find, Program.bind_eq, run_bind_ok delete]
    rfl
  | enumerate =>
    rw [Request.program, Program.bind_eq] at hs ⊢
    obtain ⟨found, w₁, list, H₁, once, exact⟩ :=
      H.listChunks h hr hn' (Nat.lt_of_le_of_lt (Memory.served_bind _ _ w) hs)
    refine ⟨_, files, w₁, ?_, .enumerate once exact, H₁⟩
    rw [run_bind_ok list]
    rfl

end Holds

theorem served_serveAll (s : Storage) (requests : List (Nat × Request)) (w : World) :
    w.remote.served ≤ (s.serveAll requests w).2.remote.served := by
  induction requests generalizing w with
  | nil => exact Nat.le_refl _
  | cons first requests ih =>
    exact Nat.le_trans (Memory.served_run (first.2.program s first.1) w) (ih _)

theorem Holds.serveAll (H : s.Holds levels files w) (hr : s.root.Canonical)
    (hn : s.nesting + 1 < levels) {requests : List (Nat × Request)}
    (sized : ∀ q ∈ requests, q.1 < s.clients.size ∧ q.2.Sized levels)
    (hs : (s.serveAll requests w).2.remote.served < Program.ample) :
    s.Behaves files (requests.map Prod.snd) (s.serveAll requests w).1 := by
  induction requests generalizing w files with
  | nil => exact .done
  | cons first requests ih =>
    obtain ⟨h, named⟩ := sized first (by simp)
    have before := s.served_serveAll requests (w.run (first.2.program s first.1)).2
    obtain ⟨result, files', w', run, serves, H'⟩ :=
      H.serve h hr hn named (Nat.lt_of_le_of_lt before hs)
    rw [Storage.serveAll, run] at hs ⊢
    exact .serve serves (ih H' (fun q hq => sized q (by simp [hq])) hs)

def opened (config : Config) (threads : 0 < config.threads) : Storage where
  profile := Memory.profile
  clients := ⟨config.threads, threads⟩
  root := .parse config.storageDir
  nesting := config.minimumNesting
  downloadLimit := config.downloadLimit.share config.threads
  uploadLimit := config.uploadLimit.share config.threads

theorem layout_bare (s : Storage) (levels : Nat) : s.Layout levels .empty Tree.bare where
  closed := Memory.bare_closed
  held id fossil _ := by
    rw [Memory.getElem?_bare, if_neg]
    · rfl
    · intro he
      simpa [Path.root] using congrArg (fun p => p.segments.length) he
  seated p content hp := by
    rw [Memory.getElem?_bare] at hp
    split at hp <;> cases hp
  shallow p hp := by
    rw [Memory.getElem?_bare] at hp
    split at hp
    · rename_i he
      simp [he, Path.root]
    · cases hp

theorem openWith_eq {config : Config} (threads : 0 < config.threads) :
    openWith Memory.profile config =
      if (opened config threads).root.isRoot then .done (opened config threads)
      else ((opened config threads).createDirectory 0 "").bind fun () =>
        .done (opened config threads) := by
  have valid : config.validate = .ok () := by
    rw [Config.validate, if_neg (Nat.ne_of_gt threads)]
  have pool : Pool.ofSize config.threads = .ok ⟨config.threads, threads⟩ := dif_pos threads
  rw [openWith, valid, pool]
  simp only [Program.bind_eq, Program.ofExcept, Program.done_bind, create, valid]
  rw [if_neg fun differ => differ rfl]
  rfl

/-- Opening a storage on a fresh service gives a store that holds nothing. -/
theorem run_openWith {config : Config} (threads : 0 < config.threads) (levels pageSize : Nat)
    (now : Millis) :
    ∃ w, (World.mk { pageSize } now).run (openWith Memory.profile config) =
        (some (.ok (opened config threads)), w) ∧
      (opened config threads).Holds levels .empty w := by
  have H : (opened config threads).Holds levels .empty (World.mk { pageSize } now) :=
    ⟨rfl, ⟨Memory.bare_closed, by simp⟩, layout_bare _ levels, by simp [Files.Sized, Files.empty]⟩
  have canonical : (opened config threads).root.Canonical := Path.canonical_parse _
  rw [openWith_eq threads]
  split
  · exact ⟨_, rfl, H⟩
  · obtain ⟨w, run, became⟩ := run_createDirectory (s := opened config threads) threads canonical
      H.online ""
    have top : (opened config threads).target "" = (opened config threads).root := by
      rw [target, Path.parse_empty, Path.resolve_root]
    have layout := H.layout.paved (H.layout.closed.createFolder canonical)
      (H.layout.closed.paved_createFolder _) (Nat.le_add_right _ _)
    rw [top] at became
    rw [createAnswer_createFolder H.layout.closed] at run
    exact ⟨w, run_bind_ok run, H.became became layout H.sized⟩

/-- A storage with room below its least nesting, opened on a fresh service, answers all
sequences of requests about ids of one length as a map would that is empty at first. -/
theorem serveAll_behaves {config : Config} (threads : 0 < config.threads) {levels : Nat}
    (room : config.minimumNesting + 1 < levels) (pageSize : Nat) (now : Millis)
    {requests : List (Nat × Request)}
    (sized : ∀ q ∈ requests, q.1 < config.threads ∧ q.2.Sized levels) :
    ∃ w, (World.mk { pageSize } now).run (openWith Memory.profile config) =
        (some (.ok (opened config threads)), w) ∧
      (((opened config threads).serveAll requests w).2.remote.served < Program.ample →
        (opened config threads).Behaves .empty (requests.map Prod.snd)
          ((opened config threads).serveAll requests w).1) := by
  obtain ⟨w, run, H⟩ := run_openWith threads levels pageSize now
  exact ⟨w, run, fun hs => H.serveAll (Path.canonical_parse _) room sized hs⟩

/-- A chunk that is put, made a fossil and listed. -/
theorem serveAll_behaves_fossil :
    ∃ w, (World.mk { pageSize := 1 } 0).run (openWith Memory.profile {}) =
        (some (.ok (opened {} Nat.one_pos)), w) ∧
      (opened {} Nat.one_pos).Behaves .empty
        [.put ⟨"abcd", by decide⟩ [7], .fossilize ⟨"abcd", by decide⟩, .enumerate]
        ((opened {} Nat.one_pos).serveAll [(0, .put ⟨"abcd", by decide⟩ [7]),
          (0, .fossilize ⟨"abcd", by decide⟩), (0, .enumerate)] w).1 := by
  have sized : ∀ q ∈ ([(0, .put ⟨"abcd", by decide⟩ [7]), (0, .fossilize ⟨"abcd", by decide⟩),
      (0, .enumerate)] : List (Nat × Request)), q.1 < ({} : Config).threads ∧ q.2.Sized 2 := by
    simp [Request.Sized, ChunkId.levels, ChunkId.digits]
  obtain ⟨w, run, behaves⟩ := serveAll_behaves Nat.one_pos (by decide) 1 0 sized
  refine ⟨w, run, behaves ?_⟩
  obtain rfl : World.mk { pageSize := 1 } 0 = w := congrArg Prod.snd run
  have short (path : String) : (opened {} Nat.one_pos).upload 0 path [7] = _ :=
    upload_short Nat.one_pos path (by simp) (by decide)
  simp only [serveAll, Request.program, short]
  decide +kernel

end Storage

end ChunkStore

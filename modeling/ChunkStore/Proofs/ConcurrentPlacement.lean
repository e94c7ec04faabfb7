import Mathlib.Data.List.Induction
import Mathlib.Data.List.Nodup
import ChunkStore.Proofs.ChunkMap
import ChunkStore.Proofs.Crew

/-!
# Workers that place chunks at the same time

Each worker takes its tasks in order: it looks for a chunk and writes it where the search
says. Between two calls of a worker the others may create the same folders and write the
same chunks. What a search learns from one call it needs only until the next, since in a
laid out tree the place of a chunk is known beforehand; so whatever the others do, a worker
performs its tasks one after the other, and the store holds what was written last.
-/

namespace ChunkStore

open Memory (World)

namespace Storage

variable {s : Storage} {thread levels : Nat} {files : Files} {w : World} {α β : Type}

def placeAll (s : Storage) (thread : Nat) :
    List (ChunkId × Bytes) → Program interface (List ChunkLocation)
  | [] => return []
  | (id, content) :: tasks => do
    let location ← s.findChunk thread id false
    s.upload thread location.path content
    return location :: (← s.placeAll thread tasks)

def Call.isUpload : Call → Bool
  | .remote _ (.upload ..) => true
  | _ => false

def uploadCall (s : Storage) (thread : Nat) (task : ChunkId × Bytes) : Call :=
  .remote thread (.upload (s.seat task.1 false).toString task.2.length
    (.ofContent task.2 s.uploadLimit))

/-- A program that performs the tasks one after the other, whatever tasks others perform
between its calls, and then ends in a value of which `Q` holds. Its other calls leave the
files alone. -/
inductive Performs (s : Storage) (thread levels : Nat) (Q : α → Prop) :
    Program interface α → List (ChunkId × Bytes) → Prop
  | done {a : α} (holds : Q a) : Performs s thread levels Q (.done a) []
  | quiet {call : Call} {next : call.Reply → Program interface α}
      {tasks : List (ChunkId × Bytes)} (silent : call.isUpload = false)
      (keeps : ∀ files w, s.Holds levels files w → s.Holds levels files (World.serve call w).2)
      (rest : ∀ files w, s.Holds levels files w →
        Performs s thread levels Q (next (World.serve call w).1) tasks) :
      Performs s thread levels Q (.ask call next) tasks
  | write {task : ChunkId × Bytes} {next : (s.uploadCall thread task).Reply → Program interface α}
      {tasks : List (ChunkId × Bytes)}
      (keeps : ∀ files w, s.Holds levels files w →
        s.Holds levels (files.set task.1 false (some task.2))
          (World.serve (s.uploadCall thread task) w).2)
      (rest : ∀ files w, s.Holds levels files w →
        Performs s thread levels Q (next (World.serve (s.uploadCall thread task) w).1) tasks) :
      Performs s thread levels Q (.ask (s.uploadCall thread task) next) (task :: tasks)

namespace Performs

theorem bind {Q : α → Prop} {R : β → Prop} {p : Program interface α}
    {f : α → Program interface β} {front back : List (ChunkId × Bytes)}
    (h : s.Performs thread levels Q p front)
    (hf : ∀ a, Q a → s.Performs thread levels R (f a) back) :
    s.Performs thread levels R (p.bind f) (front ++ back) := by
  induction h with
  | done holds => exact hf _ holds
  | quiet silent keeps _ ih => exact .quiet silent keeps fun files w H => ih files w H
  | write keeps _ ih => exact .write keeps fun files w H => ih files w H

theorem map {Q : α → Prop} {R : β → Prop} {p : Program interface α}
    {tasks : List (ChunkId × Bytes)} {f : α → β} (h : s.Performs thread levels Q p tasks)
    (hf : ∀ a, Q a → R (f a)) : s.Performs thread levels R (p.bind fun a => .done (f a)) tasks := by
  induction h with
  | done holds => exact .done (hf _ holds)
  | quiet silent keeps _ ih => exact .quiet silent keeps ih
  | write keeps _ ih => exact .write keeps ih

end Performs

section Worker

variable (h : thread < s.clients.size) (hr : s.root.Canonical) {budget : Nat} {Q : α → Prop}
  {tasks : List (ChunkId × Bytes)}
include h hr

theorem performs_stat {p : Path} (hp : p.Canonical)
    {next : FileInfo → Program Directory.interface α}
    (rest : ∀ files w, s.Holds levels files w → s.Performs thread levels Q
      ((next (w.remote.tree.info (s.root.resolve p))).interpret (s.directory budget)) tasks) :
    s.Performs thread levels Q
      (((Directory.stat thread p.toString).bind next).interpret (s.directory budget)) tasks := by
  rw [interpret_stat h, remotePath_toString s hp]
  refine .quiet rfl (fun files w H => ?_) fun files w H => ?_
  · have became := (World.answer_getMetadata H.online (hr.resolve hp)).2
    exact H.became became H.layout H.sized
  · have reply := (World.answer_getMetadata H.online (hr.resolve hp)).1
    rw [World.serve, reply]
    exact rest files w H

theorem performs_create {p : Path} (hp : p.Canonical)
    (above : p.segments.length ≤ s.nesting + 1) {next : Unit → Program Directory.interface α}
    (rest : s.Performs thread levels Q ((next ()).interpret (s.directory budget)) tasks) :
    s.Performs thread levels Q
      (((Directory.create thread p.toString).bind next).interpret (s.directory budget)) tasks := by
  rw [interpret_create h, remotePath_toString s hp]
  refine .quiet rfl (fun files w H => ?_) fun files w H => ?_
  · have closed := H.layout.closed.createFolder (hr.resolve hp)
    have paved := H.layout.closed.paved_createFolder (s.root.resolve p)
    have depth : (s.root.resolve p).segments.length ≤ s.root.segments.length + (s.nesting + 1) := by
      simpa [Path.resolve] using above
    rw [World.serve, World.answer_createFolder H.online (hr.resolve hp)]
    exact H.became (w.became_answered _ _ _) (H.layout.paved closed paved depth) H.sized
  · rw [World.serve, World.answer_createFolder H.online (hr.resolve hp),
      createAnswer_createFolder H.layout.closed]
    exact rest

/-- A search of the levels from `level` on only looks and creates shard folders, and always
ends at the place of the chunk. -/
theorem performs_descend {id : ChunkId} (hi : id.levels = levels) (hn : s.nesting + 1 < levels)
    (fossil : Bool) {remaining level : Nat} (hl : level + remaining = levels)
    (above : level ≤ s.nesting) :
    s.Performs thread levels
      (fun location : ChunkLocation => location.path = (id.place s.nesting fossil).toString)
      ((Locator.descend s.nesting thread id fossil remaining level (id.folder level)).interpret
        (s.directory budget)) [] := by
  induction remaining generalizing level with
  | zero => omega
  | succ remaining ih =>
    have within : level < id.levels := by omega
    have next : (id.folder (level + 1)).Canonical := id.canonical_folder within
    rcases Nat.lt_or_eq_of_le above with before | rfl
    · rw [Locator.descend_above before within]
      refine performs_stat h hr next fun files w H => ?_
      -- Another worker may create the folder before this one does; that is no failure.
      split
      · exact ih (by omega) before
      · refine performs_create h hr next ?_ (ih (by omega) before)
        rw [ChunkId.length_folder]
        omega
    · rw [Locator.descend_within (Nat.le_refl _) within]
      refine performs_stat h hr (id.canonical_place within fossil) fun files w H => ?_
      split
      · exact .done rfl
      · refine performs_stat h hr next fun files w H => ?_
        -- Whatever was written since the last call, no shard folder is this deep.
        split
        · rename_i present
          exact absurd (H.layout.no_shard hn hi) (Tree.info_present.1 present)
        · exact .done rfl

omit hr in
theorem upload_eq {id : ChunkId} (hn : s.nesting < id.levels) (content : Bytes) :
    s.upload thread (id.place s.nesting false).toString content =
      .ask (s.uploadCall thread (id, content)) fun reply => .ofExcept reply := by
  rw [upload, perform_eq h, remotePath_toString s (id.canonical_place hn false)]
  rfl

omit h in
theorem serve_uploadCall (worker : Nat) (task : ChunkId × Bytes) (hi : task.1.levels = levels)
    (hn : s.nesting < levels) (H : s.Holds levels files w) :
    ∃ w', World.serve (s.uploadCall worker task) w = ((.ok () : Except Failure Unit), w') ∧
      s.Holds levels (files.set task.1 false (some task.2)) w' := by
  obtain ⟨now, reply⟩ := World.answer_upload H.online (canonical_seat hr (hi ▸ hn) false)
    task.2.length task.2 s.uploadLimit
  obtain ⟨t', stored, layout⟩ := H.layout.store hr hn hi false task.2
  rw [stored] at reply
  exact ⟨_, reply, H.became (w.became_answered _ _ _) layout (H.sized.set hi _ _)⟩

theorem performs_upload {id : ChunkId} (hi : id.levels = levels) (hn : s.nesting < levels)
    (content : Bytes) :
    s.Performs thread levels (fun _ => True)
      (s.upload thread (id.place s.nesting false).toString content) [(id, content)] := by
  rw [upload_eq h (hi ▸ hn)]
  refine .write (fun files w H => ?_) fun files w H => ?_
  all_goals
    obtain ⟨w', reply, H'⟩ := serve_uploadCall hr thread (id, content) hi hn H
    rw [reply]
  · exact H'
  · exact .done trivial

theorem performs_findChunk {id : ChunkId} (hi : id.levels = levels) (hn : s.nesting + 1 < levels)
    (fossil : Bool) :
    s.Performs thread levels
      (fun location => location.path = (id.place s.nesting fossil).toString)
      (s.findChunk thread id fossil) [] :=
  performs_descend h hr hi hn fossil (by omega) (Nat.zero_le _)

theorem performs_placeAll (hn : s.nesting + 1 < levels)
    (sized : ∀ task ∈ tasks, task.1.levels = levels) :
    s.Performs thread levels
      (fun locations => locations.map ChunkLocation.path =
        tasks.map fun task => (task.1.place s.nesting false).toString)
      (s.placeAll thread tasks) tasks := by
  induction tasks with
  | nil => exact .done rfl
  | cons task tasks ih =>
    obtain ⟨id, content⟩ := task
    have hi : id.levels = levels := sized (id, content) (by simp)
    have rest := ih fun task ht => sized task (by simp [ht])
    have search := performs_findChunk h hr hi hn false
    have upload := performs_upload h hr hi (Nat.lt_of_succ_lt hn) content
    rw [placeAll, Program.bind_eq]
    refine search.bind fun location found => ?_
    rw [found]
    refine upload.bind fun () _ => ?_
    exact rest.map fun locations placed => by simp [found, placed]

end Worker

end Storage

namespace Files

/-- What a store holds after chunks were written in this order. -/
def written (tasks : List (ChunkId × Bytes)) : Files :=
  tasks.foldl (fun files task => files.set task.1 false (some task.2)) empty

def LastWritten (tasks : List (ChunkId × Bytes)) (id : ChunkId) (content : Bytes) : Prop :=
  ∃ before after, tasks = before ++ (id, content) :: after ∧ ∀ task ∈ after, task.1 ≠ id

variable {tasks : List (ChunkId × Bytes)} {task : ChunkId × Bytes} {id : ChunkId} {content : Bytes}

@[simp] theorem written_append (tasks : List (ChunkId × Bytes)) (task : ChunkId × Bytes) :
    written (tasks ++ [task]) = (written tasks).set task.1 false (some task.2) := by
  simp [written]

theorem lastWritten_append :
    LastWritten (tasks ++ [task]) id content ↔
      task = (id, content) ∨ task.1 ≠ id ∧ LastWritten tasks id content := by
  constructor
  · rintro ⟨before, after, he, apart⟩
    rcases List.eq_nil_or_concat after with rfl | ⟨init, last, rfl⟩
    · exact .inl (List.singleton_inj.1 (List.append_inj' he rfl).2)
    · rw [List.concat_eq_append, ← List.cons_append, ← List.append_assoc] at he
      obtain ⟨rfl, same⟩ := List.append_inj' he rfl
      obtain rfl := List.singleton_inj.1 same
      exact .inr ⟨apart _ (by simp), before, init, rfl, fun task ht => apart task (by simp [ht])⟩
  · rintro (rfl | ⟨differ, before, after, rfl, apart⟩)
    · exact ⟨tasks, [], rfl, by simp⟩
    · refine ⟨before, after ++ [task], by simp, fun other ho => ?_⟩
      rcases List.mem_append.1 ho with ho | ho
      · exact apart other ho
      · rwa [List.mem_singleton.1 ho]

theorem written_iff {fossil : Bool} :
    written tasks id fossil = some content ↔ fossil = false ∧ LastWritten tasks id content := by
  induction tasks using List.reverseRecOn with
  | nil => simp [written, empty, LastWritten]
  | append_singleton tasks task ih =>
    rw [written_append, lastWritten_append]
    by_cases same : id = task.1 ∧ fossil = false
    · obtain ⟨rfl, rfl⟩ := same
      rw [set_self]
      simp [Prod.ext_iff]
    · rw [set_other _ _ same, ih]
      constructor
      · rintro ⟨rfl, last⟩
        exact ⟨rfl, .inr ⟨fun he => same ⟨he.symm, rfl⟩, last⟩⟩
      · rintro ⟨rfl, rfl | ⟨-, last⟩⟩
        · exact absurd ⟨rfl, rfl⟩ same
        · exact ⟨rfl, last⟩

theorem exists_lastWritten :
    (∃ content, LastWritten tasks id content) ↔ ∃ content, (id, content) ∈ tasks := by
  induction tasks using List.reverseRecOn with
  | nil => simp [LastWritten]
  | append_singleton tasks task ih =>
    simp only [lastWritten_append, List.mem_append, List.mem_singleton, exists_or]
    constructor
    · rintro (⟨content, rfl⟩ | ⟨content, -, last⟩)
      · exact .inr ⟨content, rfl⟩
      · exact .inl (ih.1 ⟨content, last⟩)
    · rintro (earlier | ⟨content, rfl⟩)
      · by_cases same : task.1 = id
        · exact .inl ⟨task.2, by rw [← same]⟩
        · obtain ⟨content, last⟩ := ih.2 earlier
          exact .inr ⟨content, same, last⟩
      · exact .inl ⟨content, rfl⟩

end Files

namespace Storage

section Crew

variable {s : Storage} {levels : Nat} {ι : Type} [DecidableEq ι] {thread : ι → Nat}
  {tasks : ι → List (ChunkId × Bytes)} {log : List (ι × ChunkId × Bytes)}
  {crew : Crew interface World ι (List ChunkLocation)}

def performedBy (log : List (ι × ChunkId × Bytes)) (i : ι) : List (ChunkId × Bytes) :=
  (log.filter (·.1 = i)).map Prod.snd

/-- A log of the uploads among the calls of a crew. -/
def Logs (s : Storage) (thread : ι → Nat) (log : List (ι × ChunkId × Bytes))
    (trace : List (ι × Call)) : Prop :=
  trace.filter (·.2.isUpload) = log.map fun entry =>
    (entry.1, s.uploadCall (thread entry.1) entry.2)

/-- A crew in the midst of its tasks. The store holds what the log says was written, and
each worker has before it those of its tasks that are not in the log. -/
structure Placing (s : Storage) (levels : Nat) (thread : ι → Nat)
    (tasks : ι → List (ChunkId × Bytes)) (log : List (ι × ChunkId × Bytes))
    (crew : Crew interface World ι (List ChunkLocation)) : Prop where
  holds : s.Holds levels (.written (log.map Prod.snd)) crew.state
  logs : s.Logs thread log crew.trace
  ahead : ∀ i, ∃ todo, tasks i = performedBy log i ++ todo ∧
    s.Performs (thread i) levels
      (fun locations => locations.map ChunkLocation.path =
        (tasks i).map fun task => (task.1.place s.nesting false).toString)
      (crew.members i) todo

theorem performedBy_append (log : List (ι × ChunkId × Bytes)) (i j : ι) (task : ChunkId × Bytes) :
    performedBy (log ++ [(i, task)]) j =
      performedBy log j ++ if j = i then [task] else [] := by
  by_cases he : j = i
  · simp [performedBy, he]
  · simp [performedBy, he, Ne.symm he]

namespace Placing

/-- A turn of a worker performs its next task or leaves the files alone. -/
theorem advance (C : s.Placing levels thread tasks log crew) (i : ι) :
    ∃ log', s.Placing levels thread tasks log' (crew.advance World.serve i) := by
  obtain ⟨todo, split, performs⟩ := C.ahead i
  generalize hp : crew.members i = p at performs
  -- What a worker has before it is the same in every state, so a turn of `i` leaves the
  -- others with what they had.
  cases performs with
  | done _ => exact ⟨log, (Crew.advance_done hp).symm ▸ C⟩
  | @quiet call next _ silent keeps rest =>
    refine ⟨log, ?_⟩
    rw [Crew.advance_ask hp]
    refine ⟨keeps _ _ C.holds, ?_, fun j => ?_⟩
    · rw [Logs, List.filter_append, C.logs]
      simp [silent]
    · by_cases he : j = i
      · subst he
        exact ⟨todo, split, by simpa using rest _ _ C.holds⟩
      · simpa [he] using C.ahead j
  | @write task next todo keeps rest =>
    refine ⟨log ++ [(i, task)], ?_⟩
    rw [Crew.advance_ask hp]
    refine ⟨?_, ?_, fun j => ?_⟩
    · rw [List.map_append, List.map_singleton, Files.written_append]
      exact keeps _ _ C.holds
    · rw [Logs, List.filter_append, C.logs, List.map_append]
      rfl
    · rw [performedBy_append]
      by_cases he : j = i
      · subst he
        refine ⟨todo, by simp [split], by simpa using rest _ _ C.holds⟩
      · simpa [he] using C.ahead j

theorem follow (C : s.Placing levels thread tasks log crew) (schedule : List ι) :
    ∃ log', s.Placing levels thread tasks log' (crew.follow World.serve schedule) :=
  Crew.follow_keeps (P := fun crew => ∃ log', s.Placing levels thread tasks log' crew)
    (fun _ i ⟨_, C⟩ => C.advance i) ⟨log, C⟩ schedule

theorem ended (C : s.Placing levels thread tasks log crew) {i : ι} (h : (crew.members i).Ended) :
    performedBy log i = tasks i ∧ ∃ locations, crew.members i = .done locations ∧
      locations.map ChunkLocation.path =
        (tasks i).map fun task => (task.1.place s.nesting false).toString := by
  obtain ⟨todo, split, performs⟩ := C.ahead i
  generalize crew.members i = p at performs h
  cases performs with
  | done placed => exact ⟨by simpa using split.symm, _, rfl, placed⟩
  | quiet => exact h.elim
  | write => exact h.elim

end Placing

end Crew

/-- The chunks that a worker lists where tasks were performed in this order: each of them
once, with the content that was written last. -/
def ListsWritten (s : Storage) (worker : Nat) (tasks : List (ChunkId × Bytes)) (w : World) : Prop :=
  ∃ found w', w.run (s.listChunks worker) = (some (.ok found), w') ∧
    (found.map ChunkListing.id).Nodup ∧
    (∀ id, id ∈ found.map ChunkListing.id ↔ ∃ content, (id, content) ∈ tasks) ∧
    ∀ e ∈ found, ∃ content, Files.LastWritten tasks e.id content ∧
      e = s.listing e.id false content ∧
      (w'.run (s.download worker e.path)).1 = some (.ok content)

theorem Holds.listsWritten {s : Storage} {levels worker : Nat} {tasks : List (ChunkId × Bytes)}
    {w : World} (H : s.Holds levels (.written tasks) w) (h : worker < s.clients.size)
    (hr : s.root.Canonical) (hn : s.nesting < levels)
    (hs : (w.run (s.listChunks worker)).2.remote.served < Program.ample) :
    s.ListsWritten worker tasks w := by
  obtain ⟨found, w', run, H', once, exact⟩ := H.listChunks h hr hn hs
  have reported : ∀ e ∈ found, ∃ content, Files.written tasks e.id false = some content ∧
      e = s.listing e.id false content := by
    intro e he
    obtain ⟨id, fossil, content, held, rfl⟩ := (exact e).1 he
    obtain ⟨rfl, -⟩ := Files.written_iff.1 held
    exact ⟨content, held, rfl⟩
  refine ⟨found, w', run, ?_, fun id => ?_, fun e he => ?_⟩
  · refine List.Nodup.map_on (fun e he e' he' same => ?_) once
    obtain ⟨content, held, listed⟩ := reported e he
    obtain ⟨content', held', listed'⟩ := reported e' he'
    rw [← same, held] at held'
    rw [listed, listed', ← same, Option.some.inj held']
  · rw [← Files.exists_lastWritten]
    constructor
    · intro h
      obtain ⟨e, he, rfl⟩ := List.mem_map.1 h
      obtain ⟨content, held, -⟩ := reported e he
      exact ⟨content, (Files.written_iff.1 held).2⟩
    · rintro ⟨content, last⟩
      have held := Files.written_iff.2 ⟨rfl, last⟩
      exact List.mem_map.2 ⟨_, (exact _).2 ⟨id, false, content, held, rfl⟩, rfl⟩
  · obtain ⟨content, held, listed⟩ := reported e he
    obtain ⟨w'', read, -⟩ := H'.download h hr hn (H.sized _ _ _ held) held
    refine ⟨content, (Files.written_iff.1 held).2, listed, ?_⟩
    rw [listed]
    exact congrArg Prod.fst read

def placers {ι : Type} (s : Storage) (thread : ι → Nat) (tasks : ι → List (ChunkId × Bytes))
    (w : World) : Crew interface World ι (List ChunkLocation) where
  state := w
  members i := s.placeAll (thread i) (tasks i)

theorem placing_placers {s : Storage} {levels count : Nat} {thread : Fin count → Nat}
    {tasks : Fin count → List (ChunkId × Bytes)} {w : World} (H : s.Holds levels .empty w)
    (hr : s.root.Canonical) (hn : s.nesting + 1 < levels) (workers : ∀ i, thread i < s.clients.size)
    (sized : ∀ i, ∀ task ∈ tasks i, task.1.levels = levels) :
    s.Placing levels thread tasks [] (s.placers thread tasks w) where
  holds := H
  logs := rfl
  ahead i := ⟨tasks i, rfl, performs_placeAll (workers i) hr hn (sized i)⟩

/-- Workers place chunks at the same time, in a storage opened on a fresh service with room
below its least nesting. Whoever's turn it is when, no worker fails and all of them can come
to an end. Each is given the places it would be given alone. In the end all tasks have been
performed in an order that agrees with that of each worker, and what was written last in
that order is what the store lists and holds. -/
theorem placeAll_concurrent {config : Config} (threads : 0 < config.threads) {levels : Nat}
    (room : config.minimumNesting + 1 < levels) (pageSize : Nat) (now : Millis) {count : Nat}
    {thread : Fin count → Nat} (workers : ∀ i, thread i < config.threads)
    {tasks : Fin count → List (ChunkId × Bytes)}
    (sized : ∀ i, ∀ task ∈ tasks i, task.1.levels = levels) :
    ∃ w, (World.mk { pageSize } now).run (openWith Memory.profile config) =
        (some (.ok (opened config threads)), w) ∧
      ∀ schedule : List (Fin count),
        let s := opened config threads
        let crew := (s.placers thread tasks w).follow World.serve schedule
        (∃ turns, ∀ i, ((crew.follow World.serve turns).members i).Ended) ∧
        (∀ i, (crew.members i).Ended → ∃ locations, crew.members i = .done locations ∧
          locations.map ChunkLocation.path =
            (tasks i).map fun task => (task.1.place s.nesting false).toString) ∧
        ((∀ i, (crew.members i).Ended) → ∃ log, s.Logs thread log crew.trace ∧
          (∀ i, performedBy log i = tasks i) ∧
          ∀ worker < config.threads,
            (crew.state.run (s.listChunks worker)).2.remote.served < Program.ample →
            s.ListsWritten worker (log.map Prod.snd) crew.state) := by
  obtain ⟨w, run, H⟩ := run_openWith threads levels pageSize now
  refine ⟨w, run, fun schedule => ?_⟩
  intro s crew
  have canonical : s.root.Canonical := Path.canonical_parse _
  obtain ⟨log, C⟩ := (placing_placers H canonical room workers sized).follow schedule
  refine ⟨?_, fun i ended => (C.ended ended).2, fun ended => ?_⟩
  · obtain ⟨turns, ended⟩ := crew.ends_together World.serve (List.finRange count)
    exact ⟨turns, fun i => ended i (List.mem_finRange i)⟩
  · refine ⟨log, C.logs, fun i => (C.ended (ended i)).1, fun worker h hs => ?_⟩
    exact C.holds.listsWritten h canonical (Nat.lt_of_succ_lt room) hs

/-- Two workers that write one chunk, each of which looked for it before the other wrote. -/
theorem placeAll_concurrent_race :
    ∃ s w, (World.mk { pageSize := 1 } 0).run
        (openWith Memory.profile { threads := 2, minimumNesting := 1 }) = (some (.ok s), w) ∧
      ∃ crew : Crew interface World (Fin 2) (List ChunkLocation),
        crew = (s.placers Fin.val (fun i => [(⟨"abcdef", by decide⟩, [UInt8.ofNat i])]) w).follow
          World.serve [0, 1, 0, 1, 0, 1, 1, 0, 1, 0] ∧
        ∃ log, s.Logs Fin.val log crew.trace ∧
          s.ListsWritten 0 (log.map Prod.snd) crew.state := by
  have room : ({ threads := 2, minimumNesting := 1 } : Config).minimumNesting + 1 < 3 := by decide
  have sized : ∀ i : Fin 2, ∀ task ∈ [((⟨"abcdef", by decide⟩ : ChunkId), [UInt8.ofNat i])],
      task.1.levels = 3 := by
    simp [ChunkId.levels, ChunkId.digits]
  have short (i : Fin 2) (path : String) (b : UInt8) :
      (opened { threads := 2, minimumNesting := 1 } Nat.two_pos).upload i path [b] = _ :=
    upload_short i.isLt path (by simp) (Nat.succ_le_of_lt (by decide : 0 < Source.blockSize))
  obtain ⟨w, run, all⟩ := placeAll_concurrent Nat.two_pos room 1 0 (fun i => i.isLt) sized
  obtain rfl : World.mk { pageSize := 1 } 0 = w := congrArg Prod.snd run
  obtain ⟨-, -, final⟩ := all [0, 1, 0, 1, 0, 1, 1, 0, 1, 0]
  refine ⟨_, _, run, _, rfl, ?_⟩
  simp only [placers, placeAll, short] at final ⊢
  obtain ⟨log, logs, -, lists⟩ := final (by decide +kernel)
  exact ⟨log, logs, lists 0 Nat.two_pos (by decide +kernel)⟩

end Storage

end ChunkStore

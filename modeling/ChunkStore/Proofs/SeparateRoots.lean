import ChunkStore.Proofs.AgreeingTrees
import ChunkStore.Proofs.ChunkEnumeration

/-!
# Storages that do not influence each other

Two storages on one service, neither root within the other, share the folders above their
roots and the numbers of pages. Two states of the service that have the same nodes within the
root of a storage, and the same files above it, are told apart by none of its operations, and
an operation of the other storage leads from one such state to another. So the results of a
storage are those that it would have had alone.
-/

namespace ChunkStore

namespace Memory

variable {m m' : Memory} {α : Type}

structure Tuned (m m' : Memory) : Prop where
  pageSize : m'.pageSize = m.pageSize
  offline : m'.offline = m.offline

theorem Tuned.trans {m m' m'' : Memory} (h : m.Tuned m') (h' : m'.Tuned m'') : m.Tuned m'' :=
  ⟨h'.pageSize.trans h.pageSize, h'.offline.trans h.offline⟩

theorem tuned_receive {record : Record} {serve : Memory → Except Failure α × Memory}
    (hs : ∀ m, Tuned m (serve m).2) : m.Tuned (m.receive record serve).2 := by
  unfold receive
  dsimp only
  split
  · exact ⟨rfl, rfl⟩
  · have served := hs { m with calls := m.calls ++ [record] }
    exact ⟨served.pageSize, served.offline⟩

theorem tuned_onTree (record : Record) (change : Tree → Except Failure α × Tree) :
    m.Tuned (m.receive record (·.onTree change)).2 :=
  tuned_receive fun _ => ⟨rfl, rfl⟩

theorem tuned_listFolder (m : Memory) (path : String) : m.Tuned (m.listFolder path).2 := by
  apply tuned_receive
  intro m
  dsimp only
  split <;> exact ⟨rfl, rfl⟩

theorem tuned_listFolderContinue (m : Memory) (cursor : String) :
    m.Tuned (m.listFolderContinue cursor).2 := by
  apply tuned_receive
  intro m
  dsimp only
  split <;> exact ⟨rfl, rfl⟩

theorem tuned_getMetadata (m : Memory) (path : String) : m.Tuned (m.getMetadata path).2 := by
  apply tuned_receive
  intro m
  split <;> exact ⟨rfl, rfl⟩

theorem tuned_upload (m : Memory) (path : String) (body : Source) (now : Millis) :
    m.Tuned (m.upload path body now).2.1 := by
  have opened : m.Tuned (m.openUpload path).2 := tuned_receive fun _ => ⟨rfl, rfl⟩
  rcases upload_cases m path body now with ⟨e, -, same⟩ | ⟨content, -, stored⟩
  · rw [same]
    exact opened
  · rw [stored]
    exact ⟨opened.pageSize, opened.offline⟩

theorem tuned_download (m : Memory) (path : String) : m.Tuned (m.download path).2 :=
  tuned_receive fun _ => ⟨rfl, rfl⟩

theorem tuned_answer (c : Remote.Call) (w : World) : w.remote.Tuned (w.answer c).2.remote := by
  cases c with
  | listFolder path => exact tuned_listFolder _ path
  | listFolderContinue cursor => exact tuned_listFolderContinue _ cursor
  | getMetadata path => exact tuned_getMetadata _ path
  | createFolder path => exact tuned_onTree _ _
  | delete path => exact tuned_onTree _ _
  | moveEntry source target => exact tuned_onTree _ _
  | upload path size body => exact tuned_upload _ path body _
  | download path => exact tuned_download _ path

theorem tuned_run (p : Program Storage.interface α) (w : World) :
    w.remote.Tuned (w.run p).2.remote := by
  apply p.run_keeps (P := fun w' : World => w.remote.Tuned w'.remote)
  · exact ⟨rfl, rfl⟩
  · intro c w' before
    cases c with
    | remote client call => exact before.trans (tuned_answer call w')
    | clock => exact before
    | sleepUntil time => exact before

namespace World

variable {root : Path} {w w' : World}

/-- Two states of a service that a storage in `root` cannot tell apart. The first may have
served more pages. -/
structure Agree (root : Path) (w w' : World) : Prop where
  tree : Tree.Agree root w.remote.tree w'.remote.tree
  sound : w.remote.Sound
  sound' : w'.remote.Sound
  online : w.remote.offline = false
  online' : w'.remote.offline = false
  pageSize : w'.remote.pageSize = w.remote.pageSize
  served : w'.remote.served ≤ w.remote.served

theorem Agree.run (A : Agree root w w') (p : Program Storage.interface α)
    (tree : Tree.Agree root (w.run p).2.remote.tree (w'.run p).2.remote.tree)
    (served : (w'.run p).2.remote.served ≤ (w.run p).2.remote.served) :
    Agree root (w.run p).2 (w'.run p).2 where
  tree := tree
  sound := A.sound.run p
  sound' := A.sound'.run p
  online := (tuned_run p w).offline.trans A.online
  online' := (tuned_run p w').offline.trans A.online'
  pageSize := by
    rw [(tuned_run p w).pageSize, (tuned_run p w').pageSize]
    exact A.pageSize
  served := served

end World

end Memory

namespace Storage

open Memory (World)

variable {root : Path} {α β : Type} {p : Program interface α} {s : Storage} {thread : Nat}
  {w w' : World}

/-- The program cannot tell apart what a storage in `root` cannot, as long as the numbers of
pages do not run out. -/
def Insensitive (root : Path) (p : Program interface α) : Prop :=
  ∀ w w', World.Agree root w w' → (w.run p).2.remote.served < Program.ample →
    (w.run p).1 = (w'.run p).1 ∧ World.Agree root (w.run p).2 (w'.run p).2

theorem insensitive_done (a : α) : Insensitive root (.done a) := fun _ _ A _ => ⟨rfl, A⟩

theorem insensitive_failed (e : Failure) : Insensitive root (.failed e : Program interface α) :=
  fun _ _ A _ => ⟨rfl, A⟩

theorem Insensitive.bind {f : α → Program interface β} (hp : Insensitive root p)
    (hf : ∀ a, Insensitive root (f a)) : Insensitive root (p.bind f) := by
  intro w w' A room
  have first := hp w w' A (Nat.lt_of_le_of_lt (Memory.served_bind p f w) room)
  unfold World.run at first room ⊢
  rw [Program.run_bind] at room ⊢
  rw [Program.run_bind]
  cases run : p.run World.serve w with
  | mk result w₁ =>
    cases run' : p.run World.serve w' with
    | mk result' w₁' =>
      rw [run, run'] at first
      obtain ⟨same, after⟩ := first
      dsimp only at same after
      subst same
      rw [run] at room
      match result with
      | some (.ok a) => exact hf a w₁ w₁' after room
      | some (.error e) => exact ⟨rfl, after⟩
      | none => exact ⟨rfl, after⟩

theorem Insensitive.attempt (hp : Insensitive root p) : Insensitive root p.attempt := by
  intro w w' A room
  unfold Insensitive at hp
  unfold World.run at hp room ⊢
  rw [Program.run_attempt] at room ⊢
  rw [Program.run_attempt]
  obtain ⟨same, after⟩ := hp w w' A room
  exact ⟨congrArg (Option.map Except.ok) same, after⟩

theorem Insensitive.interpret {serve : (c : Directory.Call) → Program interface (Except Failure c.Answer)}
    (serves : ∀ c, Insensitive root (serve c)) (p : Program Directory.interface α) :
    Insensitive root (p.interpret serve) := by
  induction p with
  | done a => exact insensitive_done a
  | failed e => exact insensitive_failed e
  | ask call next ih => exact (serves call).bind ih
  | spent => exact fun _ _ A _ => ⟨rfl, A⟩

/-- A program is insensitive whose result and whose change of the tree depend on the tree in
such a way, and that serves no page. On a thread that has no client it fails at once. -/
theorem insensitive_of_run (result : Tree → Except Failure α) (change : Tree → Tree)
    (refused : ¬thread < s.clients.size →
      p = .failed (.invalidThreadIndex thread s.clients.size))
    (run : thread < s.clients.size → ∀ w : World, w.remote.offline = false →
      ∃ w₁, w.run p = (some (result w.remote.tree), w₁) ∧ w.Became (change w.remote.tree) w₁)
    (same : ∀ t t' : Tree, t.Closed → t'.Closed → Tree.Agree root t t' →
      result t = result t' ∧ Tree.Agree root (change t) (change t')) : Insensitive root p := by
  by_cases h : thread < s.clients.size
  · intro w w' A _
    obtain ⟨w₁, run₁, became⟩ := run h w A.online
    obtain ⟨w₁', run₁', became'⟩ := run h w' A.online'
    obtain ⟨reply, tree⟩ := same _ _ A.sound.closed A.sound'.closed A.tree
    constructor
    · rw [run₁, run₁', reply]
    · apply A.run p
      · rw [run₁, run₁', became.tree, became'.tree]
        exact tree
      · rw [run₁, run₁', became.served, became'.served]
        exact A.served
  · rw [refused h]
    exact insensitive_failed _

section Operations

variable (hr : s.root.Canonical) (thread : Nat)

theorem within_target (s : Storage) (text : String) :
    s.root.segments <+: (s.target text).segments :=
  List.prefix_append _ _

include hr

theorem insensitive_stat (path : String) : Insensitive s.root (s.stat thread path) := by
  apply insensitive_of_run (fun t => .ok (t.info (s.target path))) (fun t => t)
    (Operation.stat path).program_without_client
  · intro h w hw
    exact run_stat h hr hw path
  · intro t t' _ _ A
    exact ⟨congrArg Except.ok (A.info (s.within_target path)), A⟩

theorem insensitive_createDirectory (dir : String) :
    Insensitive s.root (s.createDirectory thread dir) := by
  apply insensitive_of_run (fun t => createAnswer (t.createFolder (s.target dir)).1)
    (fun t => (t.createFolder (s.target dir)).2)
    (Operation.createDirectory dir).program_without_client
  · intro h w hw
    exact run_createDirectory h hr hw dir
  · intro t t' ht ht' A
    obtain ⟨same, after⟩ := A.createFolder ht ht' (s.within_target dir)
    exact ⟨congrArg createAnswer same, after⟩

theorem insensitive_delete (path : String) : Insensitive s.root (s.delete thread path) := by
  apply insensitive_of_run (fun t => deleteAnswer (t.delete (s.target path)).1)
    (fun t => (t.delete (s.target path)).2) (Operation.delete path).program_without_client
  · intro h w hw
    exact run_delete h hr hw path
  · intro t t' _ _ A
    obtain ⟨same, after⟩ := A.delete (s.within_target path)
    exact ⟨congrArg deleteAnswer same, after⟩

theorem insensitive_move (source target : String) :
    Insensitive s.root (s.move thread source target) := by
  apply insensitive_of_run (fun t => (t.move (s.target source) (s.target target)).1)
    (fun t => (t.move (s.target source) (s.target target)).2)
    (Operation.move source target).program_without_client
  · intro h w hw
    exact run_move h hr hw source target
  · intro t t' ht ht' A
    exact A.move ht ht' (s.within_target source) (s.within_target target)

theorem insensitive_upload (path : String) (content : Bytes) :
    Insensitive s.root (s.upload thread path content) := by
  apply insensitive_of_run (fun t => (t.store (s.target path) content).1)
    (fun t => (t.store (s.target path) content).2)
    (Operation.upload path content).program_without_client
  · intro h w hw
    exact run_upload h hr hw path content
  · intro t t' ht ht' A
    exact A.store ht ht' (s.within_target path) content

theorem insensitive_download (path : String) : Insensitive s.root (s.download thread path) := by
  apply insensitive_of_run (fun t => t.fetch (s.target path)) (fun t => t)
    (Operation.download path).program_without_client
  · intro h w hw
    exact run_download h hr hw path
  · intro t t' _ _ A
    exact ⟨A.fetch (s.within_target path), A⟩

/-- A listing takes as many pages of the second state as of the first, so its numbers do not
run out there either. -/
theorem insensitive_list (dir : String) : Insensitive s.root (s.list thread dir) := by
  by_cases h : thread < s.clients.size
  · intro w w' A room
    have here := A.tree.within _ (s.within_target dir)
    by_cases folder : w.remote.tree[s.target dir]? = some .folder
    · have folder' : w'.remote.tree[s.target dir]? = some .folder := here.symm.trans folder
      have entries : w'.remote.tree.entries (s.target dir) =
          w.remote.tree.entries (s.target dir) := by
        rw [Tree.entries, Tree.entries, A.tree.children (s.within_target dir)]
      have pages (count : Nat) : w'.remote.fills count = w.remote.fills count := by
        rw [Memory.fills, Memory.fills, A.pageSize]
      obtain ⟨w₁, run, paged⟩ := run_list h hr A.online A.sound dir folder (.inl room)
      -- The second state has served no more pages, and needs as many for the listing.
      have room' : w'.remote.served + max 1
          (w'.remote.fills (w'.remote.tree.entries (s.target dir)).length) < Program.ample := by
        rw [run, paged.served] at room
        rw [entries, pages]
        exact Nat.lt_of_le_of_lt (Nat.add_le_add_right A.served _) room
      obtain ⟨w₁', run', paged'⟩ := run_list h hr A.online' A.sound' dir folder' (.inr room')
      constructor
      · rw [run, run', entries]
      · apply A.run
        · rw [run, run', paged.tree, paged'.tree]
          exact A.tree
        · rw [run, run', paged.served, paged'.served, entries, pages]
          exact Nat.add_le_add_right A.served _
    · have folder' : w'.remote.tree[s.target dir]? ≠ some .folder := here ▸ folder
      obtain ⟨w₁, run, became⟩ := run_list_refused h hr A.online dir folder
      obtain ⟨w₁', run', became'⟩ := run_list_refused h hr A.online' dir folder'
      constructor
      · rw [run, run', Tree.unlisted, Tree.unlisted, here]
      · apply A.run
        · rw [run, run', became.tree, became'.tree]
          exact A.tree
        · rw [run, run', became.served, became'.served]
          exact A.served
  · rw [list_without_client h]
    exact insensitive_failed _

theorem insensitive_directory (c : Directory.Call) :
    Insensitive s.root (s.directory Program.ample c) := by
  cases c with
  | stat thread path => exact (insensitive_stat hr thread path).attempt
  | create thread path => exact (insensitive_createDirectory hr thread path).attempt
  | list thread path => exact (insensitive_list hr thread path).attempt

/-- No operation of a storage can tell apart what agrees in its root. -/
theorem insensitive_program (o : Operation) : Insensitive s.root (o.program s thread) := by
  cases o with
  | list dir => exact insensitive_list hr thread dir
  | delete path => exact insensitive_delete hr thread path
  | move source target => exact insensitive_move hr thread source target
  | createDirectory dir => exact insensitive_createDirectory hr thread dir
  | stat path => exact insensitive_stat hr thread path
  | findChunk id fossil => exact .interpret (insensitive_directory hr) _
  | listChunks => exact .interpret (insensitive_directory hr) _
  | upload path content => exact insensitive_upload hr thread path content
  | download path => exact insensitive_download hr thread path

/-- An operation of a storage cannot be noticed in a root that lies apart from its own. -/
theorem agree_of_other (apart : Tree.Apart s.root root) (A : World.Agree root w w')
    (o : Operation) : World.Agree root (w.run (o.program s thread)).2 w' where
  tree := A.tree.of_apart apart (confined_run hr (o.asks_program s thread) A.sound)
  sound := A.sound.run _
  sound' := A.sound'
  online := (Memory.tuned_run _ w).offline.trans A.online
  online' := A.online'
  pageSize := A.pageSize.trans (Memory.tuned_run _ w).pageSize.symm
  served := Nat.le_trans A.served (Memory.served_run _ w)

/-- An operation comes to its end, as long as the numbers of pages do not run out. -/
theorem program_ends (hm : w.remote.Sound) (hw : w.remote.offline = false) (o : Operation)
    (room : (w.run (o.program s thread)).2.remote.served < Program.ample) :
    ∃ r, (w.run (o.program s thread)).1 = some r := by
  by_cases h : thread < s.clients.size
  · cases o with
    | list dir =>
      by_cases folder : w.remote.tree[s.target dir]? = some .folder
      · obtain ⟨w', run, -⟩ := run_list h hr hw hm dir folder (.inl room)
        exact ⟨_, congrArg Prod.fst run⟩
      · obtain ⟨w', run, -⟩ := run_list_refused h hr hw dir folder
        exact ⟨_, congrArg Prod.fst run⟩
    | delete path =>
      obtain ⟨w', run, -⟩ := run_delete h hr hw path
      exact ⟨_, congrArg Prod.fst run⟩
    | move source target =>
      obtain ⟨w', run, -⟩ := run_move h hr hw source target
      exact ⟨_, congrArg Prod.fst run⟩
    | createDirectory dir =>
      obtain ⟨w', run, -⟩ := run_createDirectory h hr hw dir
      exact ⟨_, congrArg Prod.fst run⟩
    | stat path =>
      obtain ⟨w', run, -⟩ := run_stat h hr hw path
      exact ⟨_, congrArg Prod.fst run⟩
    | findChunk id fossil =>
      obtain ⟨r, w', run, -⟩ := run_findChunk h hr hw hm.closed id fossil
      exact ⟨r, congrArg Prod.fst run⟩
    | listChunks =>
      obtain ⟨found, w', run, -⟩ := run_listChunks h hr hw hm room
      exact ⟨_, congrArg Prod.fst run⟩
    | upload path content =>
      obtain ⟨w', run, -⟩ := run_upload h hr hw path content
      exact ⟨_, congrArg Prod.fst run⟩
    | download path =>
      obtain ⟨w', run, -⟩ := run_download h hr hw path
      exact ⟨_, congrArg Prod.fst run⟩
  · rw [o.program_without_client h]
    exact ⟨_, rfl⟩

end Operations

/-- A whole operation that one of several storages is asked for, on a thread. -/
structure Errand (ι : Type) where
  storage : ι
  thread : Nat
  operation : Operation

/-- What a storage gave: a value or a failure, or nothing if a budget was spent. -/
structure Outcome (ι : Type) where
  errand : Errand ι
  result : Option (Except Failure errand.operation.Result)

variable {ι : Type} {storages : ι → Storage}

def runErrands (storages : ι → Storage) : List (Errand ι) → World → List (Outcome ι) × World
  | [], w => ([], w)
  | errand :: errands, w =>
    let (result, w) := w.run (errand.operation.program (storages errand.storage) errand.thread)
    let (outcomes, w) := runErrands storages errands w
    (⟨errand, result⟩ :: outcomes, w)

theorem served_runErrands (errands : List (Errand ι)) (w : World) :
    w.remote.served ≤ (runErrands storages errands w).2.remote.served := by
  induction errands generalizing w with
  | nil => exact Nat.le_refl _
  | cons errand errands ih => exact Nat.le_trans (Memory.served_run _ w) (ih _)

theorem runErrands_ends (hr : ∀ j, (storages j).root.Canonical) (errands : List (Errand ι))
    (hm : w.remote.Sound) (hw : w.remote.offline = false)
    (room : (runErrands storages errands w).2.remote.served < Program.ample) :
    ∀ outcome ∈ (runErrands storages errands w).1, outcome.result ≠ none := by
  induction errands generalizing w with
  | nil => exact nofun
  | cons errand errands ih =>
    intro outcome member
    rcases List.mem_cons.1 member with rfl | later
    · have first := Nat.lt_of_le_of_lt (served_runErrands errands _) room
      obtain ⟨r, ends⟩ := program_ends (hr errand.storage) errand.thread hm hw
        errand.operation first
      change (w.run _).1 ≠ none
      rw [ends]
      exact Option.some_ne_none r
    · exact ih (hm.run _) ((Memory.tuned_run _ w).offline.trans hw) room outcome later

variable [DecidableEq ι] {i : ι}

/-- What one of the storages gives does not depend on the errands of the others. -/
theorem runErrands_alone (hr : ∀ j, (storages j).root.Canonical)
    (apart : ∀ j, j ≠ i → Tree.Apart (storages j).root (storages i).root)
    (errands : List (Errand ι)) (A : World.Agree (storages i).root w w')
    (room : (runErrands storages errands w).2.remote.served < Program.ample) :
    (runErrands storages errands w).1.filter (·.errand.storage = i) =
      (runErrands storages (errands.filter (·.storage = i)) w').1 := by
  induction errands generalizing w w' with
  | nil => rfl
  | cons errand errands ih =>
    by_cases mine : errand.storage = i
    · subst mine
      have first := Nat.lt_of_le_of_lt (served_runErrands errands _) room
      obtain ⟨same, after⟩ := insensitive_program (hr errand.storage) errand.thread
        errand.operation w w' A first
      rw [List.filter_cons_of_pos (by simp), runErrands, runErrands,
        List.filter_cons_of_pos (by simp)]
      dsimp only
      rw [same, ih after room]
    · have after := agree_of_other (hr errand.storage) errand.thread (apart _ mine) A
        errand.operation
      rw [List.filter_cons_of_neg (by simpa using mine), runErrands,
        List.filter_cons_of_neg (by simpa using mine)]
      exact ih after room

/-- Storages whose roots lie apart do not influence each other: in every sequence of their
operations, each of them gives the results that it would give if the others were asked for
nothing. -/
theorem outcomes_independent {m : Memory} (hm : m.Reachable) (online : m.offline = false)
    (now : Millis) (hr : ∀ j, (storages j).root.Canonical)
    (apart : ∀ j, j ≠ i → Tree.Apart (storages j).root (storages i).root)
    (errands : List (Errand ι))
    (room : (runErrands storages errands ⟨m, now⟩).2.remote.served < Program.ample) :
    (runErrands storages errands ⟨m, now⟩).1.filter (·.errand.storage = i) =
        (runErrands storages (errands.filter (·.storage = i)) ⟨m, now⟩).1 ∧
      ∀ outcome ∈ (runErrands storages errands ⟨m, now⟩).1, outcome.result ≠ none := by
  have agree : World.Agree (storages i).root ⟨m, now⟩ ⟨m, now⟩ :=
    ⟨.refl _ _, hm.sound, hm.sound, online, online, rfl, Nat.le_refl _⟩
  constructor
  · exact runErrands_alone hr apart errands agree room
  · exact runErrands_ends hr errands hm.sound online room

/-- Two storages beside each other write, list and delete below a folder that neither has
made alone. -/
theorem outcomes_independent_beside :
    let storages (b : Bool) := plain (.parse (if b then "/shared/b" else "/shared/a")) 0
    let errands : List (Errand Bool) :=
      [⟨false, 0, .upload "x" [1]⟩, ⟨true, 0, .upload "x" [2]⟩, ⟨false, 0, .list "."⟩,
        ⟨true, 0, .list "."⟩, ⟨false, 0, .delete "/"⟩, ⟨true, 0, .download "../x"⟩]
    (runErrands storages errands {}).1.filter (·.errand.storage = true) =
        (runErrands storages (errands.filter (·.storage = true)) {}).1 ∧
      (runErrands storages errands {}).2.remote.tree.get? (.parse "/shared/a") = none ∧
      (runErrands storages errands {}).2.remote.tree.get? (.parse "/shared/b/x") =
        some (.file [2]) := by
  intro storages errands
  have canonical (j : Bool) : (storages j).root.Canonical := Path.canonical_parse _
  have apart (j : Bool) (other : j ≠ true) :
      Tree.Apart (storages j).root (storages true).root := by
    cases j with
    | true => exact absurd rfl other
    | false =>
      unfold Tree.Apart
      decide +kernel
  have room : (runErrands storages errands {}).2.remote.served < Program.ample := by
    decide +kernel
  have independent := outcomes_independent .fresh rfl 0 canonical apart errands room
  exact ⟨independent.1, by decide +kernel, by decide +kernel⟩

end Storage

end ChunkStore

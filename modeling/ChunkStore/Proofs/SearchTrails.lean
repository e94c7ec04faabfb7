import ChunkStore.Proofs.ChunkPlaces
import ChunkStore.Proofs.Transcripts

/-!
# Trails of a search

The calls that a search for a chunk makes, whoever answers them. Nothing is assumed of the
replies: a folder may be reported where nothing was made, be missing after it was made, or a
call may be refused.

A trail is the list of the steps of a search, level by level. At a level above the minimum
nesting the next shard folder is looked up, and created if it is missing. At the others the
file is looked up first, and a folder that is missing ends the search. What a trail says about
the order, the number and the depth of the calls is read off it by induction on the levels.
-/

namespace ChunkStore

namespace Locator

open Directory

/-- A call of a search with the reply to it: the stat of the file at a level, or the stat or
the creation of the shard folder at a depth. -/
inductive Step where
  | file (level : Nat) (reply : Except Failure FileInfo)
  | shard (depth : Nat) (reply : Except Failure FileInfo)
  | creation (depth : Nat) (reply : Except Failure Unit)

namespace Step

def exchange (thread : Nat) (id : ChunkId) (fossil : Bool) : Step → Program.Exchange interface
  | file level reply => ⟨.stat thread (id.place level fossil).toString, reply⟩
  | shard depth reply => ⟨.stat thread (id.folder depth).toString, reply⟩
  | creation depth reply => ⟨.create thread (id.folder depth).toString, reply⟩

def visited? : Step → Option Nat
  | shard depth _ => some depth
  | file .. | creation .. => none

def missing? : Step → Option Nat
  | shard depth (.ok info) => if info.present then none else some depth
  | shard _ (.error _) | file .. | creation .. => none

def created? : Step → Option Nat
  | creation depth _ => some depth
  | file .. | shard .. => none

/-- The shard folder at `depth` was answered to be present, or its creation succeeded. -/
def Enters (depth : Nat) : Step → Prop
  | shard d (.ok info) => d = depth ∧ info.present = true
  | creation d (.ok ()) => d = depth
  | shard _ (.error _) | creation _ (.error _) | file .. => False

end Step

/-- The steps at a level from which a search goes on to the next. -/
inductive Passes (nesting level : Nat) : List Step → Prop
  | entered {info : FileInfo} (above : level < nesting) (present : info.present = true) :
      Passes nesting level [.shard (level + 1) (.ok info)]
  | created {info : FileInfo} (above : level < nesting) (absent : info.present = false) :
      Passes nesting level [.shard (level + 1) (.ok info), .creation (level + 1) (.ok ())]
  | deeper {file info : FileInfo} (within : nesting ≤ level) (absent : file.present = false)
      (present : info.present = true) :
      Passes nesting level [.file level (.ok file), .shard (level + 1) (.ok info)]

/-- The steps at a level with which a search ends, and its result. -/
inductive Stops (nesting : Nat) (id : ChunkId) (fossil : Bool) (level : Nat) :
    List Step → Except Failure ChunkLocation → Prop
  | shardRefused (above : level < nesting) (e : Failure) :
      Stops nesting id fossil level [.shard (level + 1) (.error e)] (.error e)
  | creationRefused {info : FileInfo} (above : level < nesting) (absent : info.present = false)
      (e : Failure) :
      Stops nesting id fossil level
        [.shard (level + 1) (.ok info), .creation (level + 1) (.error e)] (.error e)
  | fileRefused (within : nesting ≤ level) (e : Failure) :
      Stops nesting id fossil level [.file level (.error e)] (.error e)
  | found {file : FileInfo} (within : nesting ≤ level) (present : file.present = true) :
      Stops nesting id fossil level [.file level (.ok file)]
        (.ok (.found (id.place level fossil).toString file.size))
  | lastRefused {file : FileInfo} (within : nesting ≤ level) (absent : file.present = false)
      (e : Failure) :
      Stops nesting id fossil level [.file level (.ok file), .shard (level + 1) (.error e)]
        (.error e)
  | missing {file info : FileInfo} (within : nesting ≤ level) (absent : file.present = false)
      (last : info.present = false) :
      Stops nesting id fossil level [.file level (.ok file), .shard (level + 1) (.ok info)]
        (.ok (.missing (id.place level fossil).toString))

/-- The steps of a search from a level on, and its result. -/
inductive Trail (nesting : Nat) (id : ChunkId) (fossil : Bool) :
    (level : Nat) → List Step → Except Failure ChunkLocation → Prop
  | exhausted :
      Trail nesting id fossil id.levels [] (.error (.chunkNestingExhausted id.text id.levels))
  | stop {level : Nat} {steps : List Step} {result : Except Failure ChunkLocation}
      (below : level < id.levels) (here : Stops nesting id fossil level steps result) :
      Trail nesting id fossil level steps result
  | pass {level : Nat} {steps rest : List Step} {result : Except Failure ChunkLocation}
      (below : level < id.levels) (here : Passes nesting level steps)
      (further : Trail nesting id fossil (level + 1) rest result) :
      Trail nesting id fossil level (steps ++ rest) result

variable {nesting level thread : Nat} {id : ChunkId} {fossil : Bool} {steps : List Step}
  {result : Except Failure ChunkLocation} {α : Type}

/-- Whoever answers, the calls of the program are steps which, with its result, are as `T`
says. -/
def Traces (thread : Nat) (id : ChunkId) (fossil : Bool) (p : Program interface α)
    (T : List Step → Except Failure α → Prop) : Prop :=
  ∀ (σ : Type) (answer : (c : Call) → σ → Except Failure c.Answer × σ) (w : σ),
    ∃ steps result, p.transcript answer w = steps.map (Step.exchange thread id fossil) ∧
      (p.run answer w).1 = some result ∧ T steps result

theorem Traces.mono {p : Program interface α} {T T' : List Step → Except Failure α → Prop}
    (h : Traces thread id fossil p T)
    (weaker : ∀ steps result, T steps result → T' steps result) :
    Traces thread id fossil p T' := by
  intro σ answer w
  obtain ⟨steps, result, calls, run, told⟩ := h σ answer w
  exact ⟨steps, result, calls, run, weaker steps result told⟩

theorem traces_done {T : List Step → Except Failure α → Prop} {a : α} (h : T [] (.ok a)) :
    Traces thread id fossil (.done a) T :=
  fun _ _ _ => ⟨[], .ok a, rfl, rfl, h⟩

theorem traces_failed {T : List Step → Except Failure α → Prop} {e : Failure}
    (h : T [] (.error e)) : Traces thread id fossil (.failed e) T :=
  fun _ _ _ => ⟨[], .error e, rfl, rfl, h⟩

theorem traces_perform {T : List Step → Except Failure α → Prop} {c : Call}
    {f : c.Answer → Program interface α} (step : Except Failure c.Answer → Step)
    (same : ∀ reply, (step reply).exchange thread id fossil = ⟨c, reply⟩)
    (refused : ∀ e, T [step (.error e)] (.error e))
    (answered : ∀ a, Traces thread id fossil (f a)
      fun steps result => T (step (.ok a) :: steps) result) :
    Traces thread id fossil ((perform c).bind f) T := by
  intro σ answer w
  rw [perform, Program.ask_bind, Program.transcript_ask, Program.run_ask]
  cases reply : (answer c w).1 with
  | error e =>
    refine ⟨[step (.error e)], .error e, ?_, rfl, refused e⟩
    rw [List.map_singleton, same]
    rfl
  | ok a =>
    obtain ⟨steps, result, calls, run, h⟩ := answered a σ answer (answer c w).2
    refine ⟨step (.ok a) :: steps, result, ?_, run, h⟩
    rw [List.map_cons, same, ← calls]
    rfl

/-- A search follows a trail. The induction is on the levels that remain. -/
theorem descend_traces (nesting thread : Nat) (id : ChunkId) (fossil : Bool)
    (remaining : Nat) {level : Nat} (total : level + remaining = id.levels) :
    Traces thread id fossil (descend nesting thread id fossil remaining level (id.folder level))
      (Trail nesting id fossil level) := by
  induction remaining generalizing level with
  | zero =>
    obtain rfl : level = id.levels := total
    exact traces_failed .exhausted
  | succ remaining ih =>
    have below : level < id.levels := by omega
    have rest := @ih (level + 1) (by omega)
    rcases Nat.lt_or_ge level nesting with above | within
    · rw [descend_above above below]
      refine traces_perform (.shard (level + 1)) (fun _ => rfl)
        (fun e => .stop below (.shardRefused above e)) fun info => ?_
      cases present : info.present with
      | true => exact rest.mono fun _ _ => .pass below (.entered above present)
      | false =>
        refine traces_perform (.creation (level + 1)) (fun _ => rfl)
          (fun e => .stop below (.creationRefused above present e)) fun () => ?_
        exact rest.mono fun _ _ => .pass below (.created above present)
    · rw [descend_within within below]
      refine traces_perform (.file level) (fun _ => rfl)
        (fun e => .stop below (.fileRefused within e)) fun file => ?_
      cases absent : file.present with
      | true => exact traces_done (.stop below (.found within absent))
      | false =>
        refine traces_perform (.shard (level + 1)) (fun _ => rfl)
          (fun e => .stop below (.lastRefused within absent e)) fun info => ?_
        cases present : info.present with
        | true => exact rest.mono fun _ _ => .pass below (.deeper within absent present)
        | false => exact traces_done (.stop below (.missing within absent present))

/-- What the steps of one level are, whether the search goes on or ends: at most two calls, the
creation of the shard folder that was missing above the minimum nesting, and a file only from
there on. -/
structure AtLevel (nesting level : Nat) (steps : List Step) : Prop where
  creations : steps.filterMap Step.created? =
    (steps.filterMap Step.missing?).filter (· ≤ nesting)
  files : ∀ l reply, .file l reply ∈ steps → l = level ∧ nesting ≤ level
  calls : steps.length ≤ 2

theorem Passes.atLevel (h : Passes nesting level steps) : AtLevel nesting level steps := by
  cases h with
  | entered above present =>
    refine ⟨?_, by simp, by simp⟩
    simp [List.filterMap_cons, Step.created?, Step.missing?, present]
  | created above absent =>
    have shallow : level + 1 ≤ nesting := above
    refine ⟨?_, by simp, by simp⟩
    simp [List.filterMap_cons, Step.created?, Step.missing?, absent, shallow]
  | deeper within absent present =>
    refine ⟨?_, by simp [within], by simp⟩
    simp [List.filterMap_cons, Step.created?, Step.missing?, present]

theorem Stops.atLevel (h : Stops nesting id fossil level steps result) :
    AtLevel nesting level steps := by
  cases h with
  | shardRefused above e => exact ⟨rfl, by simp, by simp⟩
  | creationRefused above absent e =>
    have shallow : level + 1 ≤ nesting := above
    refine ⟨?_, by simp, by simp⟩
    simp [List.filterMap_cons, Step.created?, Step.missing?, absent, shallow]
  | fileRefused within e => exact ⟨rfl, by simp [within], by simp⟩
  | found within present => exact ⟨rfl, by simp [within], by simp⟩
  | lastRefused within absent e => exact ⟨rfl, by simp [within], by simp⟩
  | missing within absent last =>
    have deep : ¬level + 1 ≤ nesting := by omega
    refine ⟨?_, by simp [within], by simp⟩
    simp [List.filterMap_cons, Step.created?, Step.missing?, last, deep]

theorem Passes.visits (h : Passes nesting level steps) :
    steps.filterMap Step.visited? = [level + 1] := by
  cases h <;> rfl

theorem Stops.visits (h : Stops nesting id fossil level steps result) :
    steps.filterMap Step.visited? = [] ∨ steps.filterMap Step.visited? = [level + 1] := by
  cases h with
  | fileRefused | found => exact .inl rfl
  | shardRefused | creationRefused | lastRefused | missing => exact .inr rfl

theorem Passes.enters (h : Passes nesting level steps) (above : level < nesting) :
    ∃ step ∈ steps, step.Enters (level + 1) := by
  cases h with
  | entered _ present => exact ⟨_, List.mem_cons_self .., rfl, present⟩
  | created _ absent => exact ⟨_, List.mem_cons_of_mem _ (List.mem_cons_self ..), rfl⟩
  | deeper within _ _ => omega

theorem Stops.place (h : Stops nesting id fossil level steps result) {loc : ChunkLocation}
    (ok : result = .ok loc) :
    nesting ≤ level ∧ loc.path = (id.place level fossil).toString := by
  cases h with
  | shardRefused | creationRefused | fileRefused | lastRefused => cases ok
  | found within present =>
    cases ok
    exact ⟨within, rfl⟩
  | missing within absent last =>
    cases ok
    exact ⟨within, rfl⟩

namespace Trail

theorem visits (h : Trail nesting id fossil level steps result) :
    ∃ k, level + k ≤ id.levels ∧ steps.filterMap Step.visited? = List.range' (level + 1) k := by
  induction h with
  | exhausted => exact ⟨0, Nat.le_refl _, rfl⟩
  | stop below here =>
    rcases here.visits with none | one
    · exact ⟨0, Nat.le_of_lt below, none⟩
    · exact ⟨1, below, one⟩
  | pass below here further ih =>
    obtain ⟨k, bound, rest⟩ := ih
    refine ⟨k + 1, by omega, ?_⟩
    rw [List.filterMap_append, here.visits, rest, List.range'_succ, List.singleton_append]

theorem creations (h : Trail nesting id fossil level steps result) :
    steps.filterMap Step.created? =
      (steps.filterMap Step.missing?).filter (· ≤ nesting) := by
  induction h with
  | exhausted => rfl
  | stop below here => exact here.atLevel.creations
  | pass below here further ih =>
    rw [List.filterMap_append, List.filterMap_append, List.filter_append,
      here.atLevel.creations, ih]

theorem length_le (h : Trail nesting id fossil level steps result) :
    steps.length ≤ 2 * (id.levels - level) := by
  induction h with
  | exhausted => simp
  | stop below here =>
    have two := here.atLevel.calls
    omega
  | pass below here further ih =>
    have two := here.atLevel.calls
    rw [List.length_append]
    omega

theorem mem_or_later {rest before after : List Step} {x : Step}
    (split : steps ++ rest = before ++ x :: after) :
    x ∈ steps ∨ ∃ more, before = steps ++ more ∧ rest = more ++ x :: after := by
  rcases List.append_eq_append_iff.1 split with ⟨more, later, tail⟩ | ⟨more, whole, tail⟩
  · exact .inr ⟨more, later, tail⟩
  · cases more with
    | nil => exact .inr ⟨[], by simpa using whole.symm, by simpa using tail.symm⟩
    | cons y more =>
      obtain ⟨rfl, -⟩ := List.cons.inj tail
      exact .inl (by simp [whole])

/-- Before a file is looked up, every folder down to the minimum nesting was entered. In the
part of the trail that is split off here only the levels from `level` on are seen. -/
theorem files (h : Trail nesting id fossil level steps result) {before after : List Step}
    {l : Nat} {reply : Except Failure FileInfo} (split : steps = before ++ .file l reply :: after) :
    nesting ≤ l ∧ l < id.levels ∧
      ∀ depth, level < depth → depth ≤ nesting → ∃ step ∈ before, step.Enters depth := by
  induction h generalizing before with
  | exhausted => simp at split
  | stop below here =>
    obtain ⟨rfl, within⟩ := here.atLevel.files l reply (by simp [split])
    exact ⟨within, below, by omega⟩
  | pass below here further ih =>
    rcases mem_or_later split with here' | ⟨more, rfl, tail⟩
    · obtain ⟨rfl, within⟩ := here.atLevel.files l reply here'
      exact ⟨within, below, by omega⟩
    · obtain ⟨within, inside, entered⟩ := ih tail
      refine ⟨within, inside, fun depth low high => ?_⟩
      rcases Nat.eq_or_lt_of_le low with rfl | low
      · obtain ⟨step, mem, enters⟩ := here.enters (by omega)
        exact ⟨step, List.mem_append_left _ mem, enters⟩
      · obtain ⟨step, mem, enters⟩ := entered depth low high
        exact ⟨step, List.mem_append_right _ mem, enters⟩

theorem place (h : Trail nesting id fossil level steps result) {loc : ChunkLocation}
    (ok : result = .ok loc) :
    ∃ l, nesting ≤ l ∧ l < id.levels ∧ loc.path = (id.place l fossil).toString := by
  induction h with
  | exhausted => cases ok
  | stop below here => exact ⟨_, (here.place ok).1, below, (here.place ok).2⟩
  | pass below here further ih => exact ih ok

end Trail

/-- What a search calls, whoever answers. Its calls are steps: the shard folders are visited
from the first on, without a gap; what is created are those of them down to the minimum nesting
that were answered to be missing, in order; a file is looked up only at a level from the minimum
nesting on, after each folder down to it was answered to be present or was created; there are
at most two calls for each level. The search ends, and if it succeeds the path is that of the
file at such a level. -/
theorem locate_steps (nesting thread : Nat) (id : ChunkId) (fossil : Bool) {σ : Type}
    (answer : (c : Call) → σ → Except Failure c.Answer × σ) (w : σ) :
    ∃ (steps : List Step) (result : Except Failure ChunkLocation),
      (locate nesting thread id fossil).transcript answer w =
        steps.map (Step.exchange thread id fossil) ∧
      ((locate nesting thread id fossil).run answer w).1 = some result ∧
      (∃ k ≤ id.levels, steps.filterMap Step.visited? = List.range' 1 k) ∧
      steps.filterMap Step.created? = (steps.filterMap Step.missing?).filter (· ≤ nesting) ∧
      (∀ before level reply after, steps = before ++ .file level reply :: after →
        nesting ≤ level ∧ level < id.levels ∧
          ∀ depth, 0 < depth → depth ≤ nesting → ∃ step ∈ before, step.Enters depth) ∧
      steps.length ≤ 2 * id.levels ∧
      ∀ loc, result = .ok loc →
        ∃ level, nesting ≤ level ∧ level < id.levels ∧
          loc.path = (id.place level fossil).toString := by
  obtain ⟨steps, result, calls, run, trail⟩ :=
    descend_traces nesting thread id fossil id.levels (Nat.zero_add _) σ answer w
  obtain ⟨k, bound, visits⟩ := trail.visits
  exact ⟨steps, result, calls, run, ⟨k, by omega, visits⟩, trail.creations,
    fun _ _ _ _ split => trail.files split, trail.length_le, fun _ ok => trail.place ok⟩

/-- The file at the last level and the deepest shard folder have one path, which is why a step
tells which of the two was meant. Here nothing is ever answered to be present. -/
example :
    let answer : (c : Call) → Unit → Except Failure c.Answer × Unit
      | .stat _ _, w => (.ok .missing, w)
      | .create _ _, w => (.ok (), w)
      | .list _ _, w => (.ok [], w)
    ((locate 1 0 ⟨"abcd", by decide⟩ false).transcript answer ()).map Program.Exchange.call =
      [.stat 0 "/chunks/ab", .create 0 "/chunks/ab", .stat 0 "/chunks/ab/cd",
        .stat 0 "/chunks/ab/cd"] := by decide +kernel

end Locator

end ChunkStore

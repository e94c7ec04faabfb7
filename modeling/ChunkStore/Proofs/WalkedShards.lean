import ChunkStore.Proofs.EndingWalks
import ChunkStore.Proofs.ShardSlices
import ChunkStore.Proofs.StorageOperations

/-!
# Created shard folders are walked

A search creates no folders but those of shards, and the name of each is one that the walk takes
for a shard. So a walk comes down to whatever a search has created, as long as the folders above
it are shown to the walk.
-/

namespace ChunkStore

open Directory

namespace Locator

variable {nesting thread level : Nat} {id : ChunkId} {fossil : Bool}

def CreatesShard (id : ChunkId) (c : Call) : Prop :=
  ∀ thread path, c = .create thread path →
    ∃ level < id.levels, path = (id.folder (level + 1)).toString

theorem stat_creates (path : String) : (stat thread path).Asks (CreatesShard id) :=
  ⟨nofun, fun reply => Program.asks_ofExcept reply⟩

theorem create_creates (h : level < id.levels) :
    (create thread (id.folder (level + 1)).toString).Asks (CreatesShard id) := by
  refine ⟨fun thread path same => ?_, fun reply => Program.asks_ofExcept reply⟩
  cases same
  exact ⟨level, h, rfl⟩

theorem descend_creates {remaining : Nat} (levels : level + remaining ≤ id.levels) :
    (descend nesting thread id fossil remaining level (id.folder level)).Asks
      (CreatesShard id) := by
  induction remaining generalizing level with
  | zero => trivial
  | succ remaining ih =>
    have here : level < id.levels := by omega
    have deeper : (descend nesting thread id fossil remaining (level + 1)
        (id.folder (level + 1))).Asks (CreatesShard id) := ih (by omega)
    rcases Nat.lt_or_ge level nesting with above | within
    · rw [descend_above above here]
      apply (stat_creates _).bind
      intro info
      split
      · exact deeper
      · exact (create_creates here).bind fun _ => deeper
    · rw [descend_within within here]
      apply (stat_creates _).bind
      intro file
      split
      · trivial
      · apply (stat_creates _).bind
        intro info
        split
        · exact deeper
        · trivial

end Locator

namespace Walk

variable {σ : Type} {answer : (c : Call) → σ → Except Failure c.Answer × σ} {s : σ}
  {thread budget depth : Nat} {a : Shard} {pending : List Shard} {found out : List ChunkListing}
  {exchanges further : List (Program.Exchange interface)} {id : ChunkId}

/-- The folder was listed, and so were all shard folders that it showed and, in turn, those
that they showed. -/
inductive Descended (thread : Nat) (exchanges : List (Program.Exchange interface)) : Shard → Prop
  | intro {a : Shard} {entries : List ListEntry}
      (listed : ⟨.list thread a.dir.toString, .ok entries⟩ ∈ exchanges)
      (below : ∀ a' ∈ entries.filterMap (subshard? a), Descended thread exchanges a') :
      Descended thread exchanges a

theorem Descended.mono (h : Descended thread exchanges a) (more : exchanges ⊆ further) :
    Descended thread further a := by
  induction h with
  | intro listed below ih => exact .intro (more listed) ih

theorem answered_of_ok {α : Type} {c : Call} {f : c.Answer → Program interface α} {value : α}
    (ends : (((perform c).bind f).run answer s).1 = some (.ok value)) :
    ∃ reply s', (answer c s).1 = .ok reply ∧ ((f reply).run answer s').1 = some (.ok value) ∧
      ((perform c).bind f).transcript answer s =
        ⟨c, .ok reply⟩ :: (f reply).transcript answer s' := by
  rw [perform, Program.ask_bind, Program.run_ask] at ends
  rw [perform, Program.ask_bind, Program.transcript_ask]
  cases told : (answer c s).1 with
  | error e =>
    rw [told] at ends
    cases ends
  | ok reply =>
    rw [told] at ends
    exact ⟨reply, _, rfl, ends, rfl⟩

theorem visit_descends
    (ends : ((visit thread budget pending found).run answer s).1 = some (.ok out)) :
    ∀ a ∈ pending,
      Descended thread ((visit thread budget pending found).transcript answer s) a := by
  induction budget generalizing pending found s with
  | zero =>
    cases pending with
    | nil => nofun
    | cons a pending => cases ends
  | succ budget ih =>
    cases pending with
    | nil => nofun
    | cons a pending =>
      rw [visit_cons] at ends ⊢
      obtain ⟨entries, s', -, later, exchanged⟩ := answered_of_ok ends
      have rest := ih later
      rw [exchanged]
      intro a' queued
      -- The shards of the first folder are queued behind the others, so the rest of the run has
      -- come down to both.
      rcases List.mem_cons.1 queued with rfl | queued
      · refine .intro List.mem_cons_self fun sub met => ?_
        exact (rest sub (List.mem_append_right _ met)).mono (List.subset_cons_self ..)
      · exact (rest a' (List.mem_append_left _ queued)).mono (List.subset_cons_self ..)

/-- A walk that succeeds comes down from the folder of chunks, if it was told that this is one. -/
theorem chunks_descends {info : FileInfo}
    (ends : ((chunks thread budget).run answer s).1 = some (.ok out))
    (told : (answer (.stat thread Locator.chunks.toString) s).1 = .ok info)
    (folder : info.isDirectory = true) :
    Descended thread ((chunks thread budget).transcript answer s) ⟨Locator.chunks, ""⟩ := by
  have steps : chunks thread budget =
      (perform (.stat thread Locator.chunks.toString)).bind fun info =>
        if info.isDirectory then visit thread budget [⟨Locator.chunks, ""⟩] [] else .done [] := rfl
  rw [steps] at ends ⊢
  obtain ⟨info', s', told', later, exchanged⟩ := answered_of_ok ends
  cases told.symm.trans told'
  rw [if_pos folder] at later exchanged
  rw [exchanged]
  exact (visit_descends later _ List.mem_cons_self).mono (List.subset_cons_self ..)

/-- Each folder above `dir` that was listed shows the next one on the way to it. -/
def Shown (thread : Nat) (exchanges : List (Program.Exchange interface)) (dir : Path) : Prop :=
  ∀ (above : Path) name entries, (above.child name).segments <+: dir.segments →
    ⟨.list thread above.toString, .ok entries⟩ ∈ exchanges →
      ∃ e ∈ entries, e.isDirectory = true ∧ e.baseName = name

/-- What was shown on the way to a shard folder of an id, the walk has followed. -/
theorem descended_folder (top : Descended thread exchanges ⟨Locator.chunks, ""⟩)
    (shown : Shown thread exchanges (id.folder depth)) (levels : depth ≤ id.levels)
    {level : Nat} (h : level ≤ depth) :
    ∃ digits, Descended thread exchanges ⟨id.folder level, digits⟩ := by
  induction level with
  | zero => exact ⟨"", top⟩
  | succ level ih =>
    obtain ⟨digits, here⟩ := ih (Nat.le_of_succ_le h)
    cases here with
    | @intro _ entries listed below =>
      have path : (id.folder level).child (id.shard level) = id.folder (level + 1) :=
        (id.folder_succ level).symm
      obtain ⟨e, mem, directory, name⟩ :=
        shown (id.folder level) (id.shard level) entries (path ▸ id.folder_prefix h) listed
      have met : subshard? ⟨id.folder level, digits⟩ e =
          some ⟨id.folder (level + 1), digits ++ id.shard level⟩ := by
        rw [subshard?_eq_some, Shard.sub, name, path]
        exact ⟨directory, id.isShardName_shard (by omega), rfl⟩
      exact ⟨_, below _ (List.mem_filterMap.2 ⟨e, mem, met⟩)⟩

/-- Whoever answers, a walk that succeeds lists the folder, if it was told that the folder of
chunks is one and was shown the way from there. -/
def Lists (dir : Path) : Prop :=
  ∀ (σ : Type) (answer : (c : Call) → σ → Except Failure c.Answer × σ) (s : σ)
    (thread budget : Nat) (found : List ChunkListing) (info : FileInfo),
    ((chunks thread budget).run answer s).1 = some (.ok found) →
    (answer (.stat thread Locator.chunks.toString) s).1 = .ok info → info.isDirectory = true →
    Shown thread ((chunks thread budget).transcript answer s) dir →
      ∃ entries, ⟨.list thread dir.toString, .ok entries⟩ ∈
        (chunks thread budget).transcript answer s

theorem lists_folder (levels : depth ≤ id.levels) : Lists (id.folder depth) := by
  intro σ answer s thread budget found info ends told folder shown
  have top := chunks_descends ends told folder
  obtain ⟨digits, here⟩ := descended_folder top shown levels (Nat.le_refl depth)
  cases here with
  | intro listed below => exact ⟨_, listed⟩

end Walk

namespace ChunkId

/-- Ids and shards fit together. A text is an id if and only if it is a non-empty run of hexadecimal
digits of even length, and it is kept as it is. At every level that an id has, its shard and its
remainder can be cut out, and at no other; the shards up to a level and the remainder there are the
id. So a search that cuts out what it needs is the search, and it creates no folder but those of
shards, which the walk takes for shards and lists. -/
theorem shards_fit :
    (∀ s, ((∃ id, parse s = .ok id) ↔ s ≠ "" ∧ s.utf8ByteSize % 2 = 0 ∧
        ∀ c ∈ s.toList, c ∈ "0123456789abcdefABCDEF".toList) ∧
      ∀ id, parse s = .ok id → id.text = s) ∧
    ∀ id : ChunkId,
      id.text.utf8ByteSize = 2 * id.levels ∧
      (∀ level ≤ id.levels,
        String.join ((List.range level).map id.shard) ++ id.remainder level = id.text) ∧
      (∀ level, Text.slice? id.text (2 * level) (2 * level + 2) = id.shard? level ∧
        Text.slice? id.text (2 * level) id.text.utf8ByteSize = id.remainder? level) ∧
      (∀ level < id.levels, Walk.isShardName (id.shard level) = true ∧
        Walk.Lists (id.folder (level + 1))) ∧
      ∀ nesting thread fossil,
        Locator.cutDescend nesting thread id fossil id.levels 0 Locator.chunks =
          OptionT.lift (Locator.locate nesting thread id fossil) ∧
        (Locator.locate nesting thread id fossil).Asks (Locator.CreatesShard id) := by
  refine ⟨fun s => ⟨exists_parse_iff s, fun id => parse_eq_ok_iff.1⟩, fun id => ?_⟩
  refine ⟨id.utf8ByteSize_text, fun level h => id.join_shards h,
    fun level => ⟨id.slice?_shard level, id.slice?_remainder level⟩,
    fun level h => ⟨id.isShardName_shard h, Walk.lists_folder h⟩, fun nesting thread fossil => ?_⟩
  have levels : 0 + id.levels ≤ id.levels := Nat.le_of_eq (Nat.zero_add _)
  exact ⟨Locator.cutDescend_eq levels Locator.chunks, Locator.descend_creates levels⟩

/-- An id in both cases of letters: what is cut out of it, and a walk that comes to its shard. -/
theorem shards_fit_mixed_case :
    let id : ChunkId := ⟨"aB12", by decide⟩
    let d : Fixed :=
      { stat := fun _ => .ok .directory
        create := fun _ => .ok ()
        folders := [("/chunks", [⟨"x/", 0⟩, ⟨"aB/", 0⟩]), ("/chunks/aB", [⟨"12", 7⟩])]
        unlisted := .notFound }
    (∃ id, parse "aB12" = .ok id) ∧ (¬ ∃ id, parse "é" = .ok id) ∧
      1 < id.levels ∧ id.shard 0 ++ id.remainder 1 = "aB12" ∧
      Text.slice? id.text 2 4 = some "12" ∧ Text.slice? id.text 4 6 = none ∧
      Walk.isShardName (id.shard 1) = true ∧
      Walk.Shown 0 ((Walk.chunks 0 2).transcript d.answer ()) (id.folder 1) ∧
      ∃ entries, ⟨.list 0 (id.folder 1).toString, .ok entries⟩ ∈
        (Walk.chunks 0 2).transcript d.answer () := by
  intro id d
  obtain ⟨texts, ids⟩ := shards_fit
  obtain ⟨-, joined, cuts, shards, -⟩ := ids id
  have walked : (Walk.chunks 0 2).transcript d.answer () =
      [⟨.stat 0 "/chunks", .ok .directory⟩,
        ⟨.list 0 "/chunks", .ok [⟨"x/", 0⟩, ⟨"aB/", 0⟩]⟩,
        ⟨.list 0 "/chunks/aB", .ok [⟨"12", 7⟩]⟩] := rfl
  have folder : id.folder 1 = ⟨["chunks", "aB"]⟩ := by decide +kernel
  have shown : Walk.Shown 0 ((Walk.chunks 0 2).transcript d.answer ()) (id.folder 1) := by
    intro above name entries way listed
    rw [walked] at listed
    simp only [List.mem_cons, List.not_mem_nil, or_false, Program.Exchange.mk.injEq, reduceCtorEq,
      false_and, false_or, Call.list.injEq, true_and] at listed
    rw [folder] at way
    obtain ⟨rest, way⟩ := way
    have place : above = .root ∨ above = ⟨["chunks"]⟩ ∧ name = "aB" := by
      obtain ⟨_ | ⟨first, _ | ⟨second, more⟩⟩⟩ := above
      · exact .inl rfl
      · simp_all
      · simp at way
    rcases place with rfl | ⟨rfl, rfl⟩
    · exact absurd listed (by simp [Path.root, Path.toString])
    · have top : (⟨["chunks"]⟩ : Path).toString = "/chunks" := by decide +kernel
      rw [top] at listed
      rcases listed with ⟨-, same⟩ | ⟨other, -⟩
      · cases eq_of_heq same
        exact ⟨⟨"aB/", 0⟩, by simp, by decide, by decide⟩
      · exact absurd other (by decide)
  have ends : ((Walk.chunks 0 2).run d.answer ()).1 =
      some (.ok [⟨id, "/chunks/aB/12", 7, false⟩]) := rfl
  refine ⟨(texts _).1.2 ⟨by decide, by decide, by simp⟩, fun ok => ?_, by decide,
    joined 1 (by decide), (cuts 1).1.trans (by decide +kernel),
    (cuts 2).1.trans (by decide +kernel), (shards 1 (by decide)).1, shown, ?_⟩
  · obtain ⟨-, -, digits⟩ := (texts _).1.1 ok
    exact absurd (digits 'é' (by decide)) (by decide)
  · exact (shards 0 (by decide)).2 Unit d.answer () 0 2 _ .directory ends rfl rfl shown

end ChunkId

end ChunkStore

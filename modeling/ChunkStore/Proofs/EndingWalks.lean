import ChunkStore.Proofs.ShardWalk
import ChunkStore.Proofs.Transcripts
import Mathlib.Data.List.MinMax

/-!
# Walks of directories that stay as they are

Entries are whatever a directory lists, in any folder and any number of times, so a walk may
come to the same folder again and again. It ends because the paths of the folders only get
longer: beyond the longest path that can be listed every listing fails, and with it the walk.
What a queue can still lead to is therefore bounded by the lengths of its paths, and each
listing takes one off that bound.
-/

namespace ChunkStore

/-- A directory that stays as it is, with a table of the folders that can be listed. -/
structure Directory.Fixed where
  stat : String → Except Failure FileInfo
  create : String → Except Failure Unit
  folders : List (String × List ListEntry)
  /-- What the listing of a path that is not in the table fails with. -/
  unlisted : String → Failure

namespace Directory.Fixed

variable {d : Fixed} {path : String} {entries : List ListEntry}

def list (d : Fixed) (path : String) : Except Failure (List ListEntry) :=
  match d.folders.lookup path with
  | some entries => .ok entries
  | none => .error (d.unlisted path)

def answer (d : Fixed) : (c : Call) → Unit → Except Failure c.Answer × Unit
  | .stat _ path, s => (d.stat path, s)
  | .create _ path, s => (d.create path, s)
  | .list _ path, s => (d.list path, s)

def depth (d : Fixed) : Nat :=
  (d.folders.map fun folder => (Path.parse folder.1).segments.length).foldr max 0

def breadth (d : Fixed) : Nat := (d.folders.map fun folder => folder.2.length).foldr max 0

/-- The most folders that can be listed from one on, its path being `height` names shorter
than those that are too long for the table. -/
def visits (d : Fixed) : (height : Nat) → Nat
  | 0 => 1
  | height + 1 => 1 + d.breadth * d.visits height

theorem visits_pos (d : Fixed) (height : Nat) : 0 < d.visits height := by
  cases height with
  | zero => exact Nat.one_pos
  | succ height => exact Nat.lt_of_lt_of_le Nat.one_pos (Nat.le_add_right 1 _)

theorem mem_of_list (listed : d.list path = .ok entries) : (path, entries) ∈ d.folders := by
  unfold list at listed
  split at listed
  · rename_i found
    cases listed
    obtain ⟨before, after, split, -⟩ := List.lookup_eq_some_iff.1 found
    simp [split]
  · cases listed

theorem le_depth {p : Path} (hp : p.Canonical) (listed : d.list p.toString = .ok entries) :
    p.segments.length ≤ d.depth := by
  apply List.le_max_of_le' 0 (List.mem_map_of_mem (mem_of_list listed))
  rw [Path.parse_toString hp]

theorem le_breadth (listed : d.list path = .ok entries) : entries.length ≤ d.breadth :=
  List.le_max_of_le' 0 (List.mem_map_of_mem (mem_of_list listed)) (Nat.le_refl _)

variable {α : Type} {c : Call} {f : c.Answer → Program interface α} {most : Nat}
  {result : Except Failure α}

/-- The program ends with `result` after at most so many calls. -/
structure Ends (d : Fixed) (p : Program interface α) (most : Nat)
    (result : Except Failure α) : Prop where
  run : p.run d.answer () = (some result, ())
  calls : (p.transcript d.answer ()).length ≤ most

theorem Ends.done (value : α) : d.Ends (.done value) most (.ok value) := ⟨rfl, Nat.zero_le _⟩

theorem Ends.refused {e : Failure} (reply : (d.answer c ()).1 = .error e) :
    d.Ends ((perform c).bind f) (most + 1) (.error e) := by
  constructor
  · rw [perform, Program.ask_bind, Program.run_ask, reply]
    rfl
  · rw [perform, Program.ask_bind, Program.transcript_ask, reply]
    exact Nat.succ_le_succ (Nat.zero_le most)

theorem Ends.answered {a : c.Answer} (reply : (d.answer c ()).1 = .ok a)
    (rest : d.Ends (f a) most result) : d.Ends ((perform c).bind f) (most + 1) result := by
  constructor
  · rw [perform, Program.ask_bind, Program.run_ask, reply]
    exact rest.run
  · rw [perform, Program.ask_bind, Program.transcript_ask, reply]
    exact Nat.succ_le_succ rest.calls

end Directory.Fixed

namespace Walk

open Directory

variable {d : Fixed} {thread : Nat} {a a' : Shard} {pending : List Shard}
  {found : List ChunkListing} {entries : List ListEntry}

/-- The names that a folder's path lacks to be too long for the table. -/
def height (d : Fixed) (a : Shard) : Nat := d.depth + 1 - a.dir.segments.length

/-- The most folders that can be listed from a queue on. -/
def owed (d : Fixed) : List Shard → Nat
  | [] => 0
  | a :: pending => d.visits (height d a) + owed d pending

theorem owed_append (first second : List Shard) :
    owed d (first ++ second) = owed d first + owed d second := by
  induction first with
  | nil => rw [List.nil_append, owed, Nat.zero_add]
  | cons a first ih => rw [List.cons_append, owed, owed, ih, Nat.add_assoc]

theorem owed_level {low : Nat} (level : ∀ a ∈ pending, height d a = low) :
    owed d pending = pending.length * d.visits low := by
  induction pending with
  | nil => rw [owed, List.length_nil, Nat.zero_mul]
  | cons a pending ih =>
    have own := level a List.mem_cons_self
    have others := ih fun a' member => level a' (List.mem_cons_of_mem _ member)
    rw [owed, own, others, List.length_cons, Nat.succ_mul, Nat.add_comm]

theorem owed_pos : 0 < owed d (a :: pending) :=
  Nat.lt_of_lt_of_le (d.visits_pos (height d a)) (Nat.le_add_right ..)

theorem canonical_subshard (ha : a.dir.Canonical)
    (met : a' ∈ entries.filterMap (subshard? a)) : a'.dir.Canonical := by
  obtain ⟨e, -, named⟩ := List.mem_filterMap.1 met
  obtain ⟨-, shard, rfl⟩ := subshard?_eq_some.1 named
  exact ha.child (isName_of_isShardName shard)

theorem height_subshard (met : a' ∈ entries.filterMap (subshard? a)) :
    height d a' = height d a - 1 := by
  obtain ⟨e, -, named⟩ := List.mem_filterMap.1 met
  obtain ⟨-, -, rfl⟩ := subshard?_eq_some.1 named
  rw [height, height, Shard.sub, Path.child_segments, List.length_append, List.length_singleton]
  omega

/-- The folders met in one that is listed owe what it owes, but for its own listing. -/
theorem owed_subshards (ha : a.dir.Canonical) (listed : d.list a.dir.toString = .ok entries) :
    owed d (entries.filterMap (subshard? a)) + 1 ≤ d.visits (height d a) := by
  have deep : a.dir.segments.length ≤ d.depth := Fixed.le_depth ha listed
  obtain ⟨low, level⟩ : ∃ low, height d a = low + 1 :=
    Nat.exists_eq_succ_of_ne_zero (by unfold height; omega)
  have below : ∀ a' ∈ entries.filterMap (subshard? a), height d a' = low := by
    intro a' met
    rw [height_subshard met, level, Nat.add_sub_cancel]
  have few : (entries.filterMap (subshard? a)).length ≤ d.breadth :=
    Nat.le_trans (List.length_filterMap_le ..) (Fixed.le_breadth listed)
  calc
    owed d (entries.filterMap (subshard? a)) + 1
      = (entries.filterMap (subshard? a)).length * d.visits low + 1 := by rw [owed_level below]
    _ ≤ d.breadth * d.visits low + 1 := Nat.succ_le_succ (Nat.mul_le_mul_right _ few)
    _ = d.visits (height d a) := by rw [level, Fixed.visits, Nat.add_comm]

/-- A listing takes at least one off what the queue owes. -/
theorem owed_step (ha : a.dir.Canonical) (listed : d.list a.dir.toString = .ok entries) :
    owed d (pending ++ entries.filterMap (subshard? a)) + 1 ≤ owed d (a :: pending) := by
  have below := owed_subshards ha listed
  rw [owed_append, owed]
  omega

theorem ends_nil (budget most : Nat) :
    d.Ends (visit thread budget [] found) most (.ok found) := by
  cases budget <;> exact .done found

theorem visit_cons (budget : Nat) :
    visit thread (budget + 1) (a :: pending) found =
      (perform (.list thread a.dir.toString)).bind fun entries =>
        visit thread budget (pending ++ entries.filterMap (subshard? a))
          (found ++ entries.filterMap (chunk? a)) := rfl

/-- A queue is worked off with as many listings as it owes, or one of them fails. -/
theorem visit_ends (found : List ChunkListing) (canonical : ∀ a ∈ pending, a.dir.Canonical)
    {most : Nat} (enough : owed d pending ≤ most) :
    ∃ result, ∀ budget, most ≤ budget →
      d.Ends (visit thread budget pending found) most result := by
  -- On the bound and not on the budget, since one result has to do for every budget.
  induction most generalizing pending found with
  | zero =>
    cases pending with
    | nil => exact ⟨.ok found, fun budget _ => ends_nil budget _⟩
    | cons a pending => exact absurd enough (Nat.not_le_of_lt owed_pos)
  | succ most ih =>
    cases pending with
    | nil => exact ⟨.ok found, fun budget _ => ends_nil budget _⟩
    | cons a pending =>
      have ha : a.dir.Canonical := canonical a List.mem_cons_self
      cases reply : d.list a.dir.toString with
      | error e =>
        refine ⟨.error e, fun budget room => ?_⟩
        obtain ⟨budget, rfl⟩ := Nat.exists_eq_add_of_le' room
        rw [← Nat.add_assoc, visit_cons]
        exact .refused reply
      | ok entries =>
        have step : owed d (pending ++ entries.filterMap (subshard? a)) ≤ most :=
          Nat.le_of_succ_le_succ (Nat.le_trans (owed_step ha reply) enough)
        have queued : ∀ a' ∈ pending ++ entries.filterMap (subshard? a), a'.dir.Canonical := by
          intro a' member
          rcases List.mem_append.1 member with old | met
          · exact canonical a' (List.mem_cons_of_mem _ old)
          · exact canonical_subshard ha met
        obtain ⟨result, ends⟩ := ih (found ++ entries.filterMap (chunk? a)) queued step
        refine ⟨result, fun budget room => ?_⟩
        obtain ⟨budget, rfl⟩ := Nat.exists_eq_add_of_le' room
        rw [← Nat.add_assoc, visit_cons]
        exact .answered reply (ends _ (Nat.le_add_left ..))

/-- The walk of a directory that stays as it is ends, with a result or with an error, whatever
is listed in its folders. The result depends on no budget that is large enough for the depth
and the breadth of the table. -/
theorem chunks_ends (d : Fixed) (thread : Nat) :
    ∃ result : Except Failure (List ChunkListing), ∀ budget, d.visits d.depth ≤ budget →
      (chunks thread budget).run d.answer () = (some result, ()) ∧
        ((chunks thread budget).transcript d.answer ()).length ≤ d.visits d.depth + 1 := by
  suffices ends : ∃ result, ∀ budget, d.visits d.depth ≤ budget →
      d.Ends (chunks thread budget) (d.visits d.depth + 1) result by
    obtain ⟨result, ends⟩ := ends
    exact ⟨result, fun budget enough => ⟨(ends budget enough).run, (ends budget enough).calls⟩⟩
  cases reply : d.stat Locator.chunks.toString with
  | error e => exact ⟨.error e, fun budget _ => .refused reply⟩
  | ok info =>
    cases folder : info.isDirectory with
    | false =>
      refine ⟨.ok [], fun budget _ => .answered reply ?_⟩
      rw [folder]
      exact .done []
    | true =>
      have whole : owed d [⟨Locator.chunks, ""⟩] ≤ d.visits d.depth := by
        have top : height d ⟨Locator.chunks, ""⟩ = d.depth := rfl
        rw [owed, owed, top, Nat.add_zero]
      have canonical : Locator.chunks.Canonical := Path.canonical_parse _
      obtain ⟨result, ends⟩ := visit_ends [] (by simpa using canonical) whole
      refine ⟨result, fun budget enough => .answered reply ?_⟩
      rw [folder]
      exact ends budget enough

/-- A folder that is listed twice, and below which nothing can be listed. -/
example :
    let d : Fixed :=
      { stat := fun _ => .ok .directory
        create := fun _ => .ok ()
        folders := [("/chunks", [⟨"ab/", 0⟩, ⟨"ab///", 0⟩, ⟨"x/cd/", 0⟩, ⟨"00", 7⟩])]
        unlisted := .notFound }
    ((chunks 0 3).run d.answer ()).1 = some (.error (.notFound "/chunks/ab")) := by
  decide +kernel

end Walk

end ChunkStore

import ChunkStore.Memory.Tree
import ChunkStore.Proofs.CanonicalPaths
import Mathlib.Tactic.ByContra
import Mathlib.Tactic.Push

/-!
# Closed trees

The tree of a store is a flat map, so nothing in its type puts a file into a folder. A tree
is closed when its root is a folder, its paths are canonical and every path above a node is
a folder. For each operation there is one lemma that lists its outcomes and describes the
tree after each of them by look-up; that the operation keeps a tree closed, and that a
refusal leaves the tree alone, follow from it.
-/

namespace ChunkStore.Tree

open ChunkStore.Path

variable {t t' : Tree} {p q r : Path}

/-- Folders all the way up from every node, and canonical paths only. -/
structure Closed (t : Tree) : Prop where
  root : t[Path.root]? = some .folder
  canonical : ∀ p : Path, t[p]? ≠ none → p.Canonical
  above : ∀ p : Path, t[p]? ≠ none → ∀ q ∈ p.ancestors, t[q]? = some .folder

/-- No path above `p` is a file. -/
def Unblocked (t : Tree) (p : Path) : Prop := ∀ q ∈ p.ancestors, ∀ c, t[q]? ≠ some (.file c)

theorem not_unblocked_iff :
    ¬t.Unblocked p ↔ ∃ q ∈ p.ancestors, ∃ c, t[q]? = some (.file c) := by
  unfold Unblocked
  push Not
  rfl

theorem getElem?_insert_path (t : Tree) (p q : Path) (node : Node) :
    (t.insert p node)[q]? = if q = p then some node else t[q]? := by
  rw [Std.ExtTreeMap.getElem?_insert]
  simp only [Std.compare_eq_iff_eq, @eq_comm _ p q]

theorem getElem?_erase_path (t : Tree) (p q : Path) :
    (t.erase p)[q]? = if q = p then none else t[q]? := by
  rw [Std.ExtTreeMap.getElem?_erase]
  simp only [Std.compare_eq_iff_eq, @eq_comm _ p q]

theorem contains_iff (t : Tree) (p : Path) : t.contains p = true ↔ t[p]? ≠ none := by
  rw [Std.ExtTreeMap.contains_eq_isSome_getElem?, Option.isSome_iff_ne_none]

theorem contains_eq_false (h : t[p]? = none) : t.contains p = false := by
  rw [← Bool.not_eq_true, contains_iff, not_not]
  exact h

theorem Closed.of_prefix (h : t.Closed) (hp : t[p]? ≠ none)
    (hq : q.segments <+: p.segments) : t[q]? ≠ none := by
  rcases Nat.lt_or_ge q.segments.length p.segments.length with hl | hl
  · rw [h.above p hp q (mem_ancestors.2 ⟨hq, hl⟩)]
    simp
  · obtain rfl : q = p := by
      cases p
      cases q
      exact congrArg Path.mk (hq.eq_of_length_le hl)
    exact hp

/-- Nothing lies below a path that holds nothing. -/
theorem Closed.none_below (h : t.Closed) (hq : t[q]? = none)
    (hp : q.segments <+: p.segments) : t[p]? = none := by
  by_contra hn
  exact h.of_prefix hn hp hq

/-- Nothing lies below a file. -/
theorem Closed.eq_of_below_file (h : t.Closed) {c : Bytes} (hp : t[p]? = some (.file c))
    (hq : t[q]? ≠ none) (below : p.segments <+: q.segments) : q = p := by
  by_contra hne
  have shorter : p.segments.length < q.segments.length := by
    refine Nat.lt_of_le_of_ne below.length_le fun same => hne ?_
    exact congrArg Path.mk (below.eq_of_length same).symm
  rw [h.above q hq p (mem_ancestors.2 ⟨below, shorter⟩)] at hp
  cases hp

theorem ensureFolders_ok {ancestors : List Path}
    (h : ∀ q ∈ ancestors, ∀ c, t[q]? ≠ some (.file c)) :
    ∃ t', t.ensureFolders ancestors = (.ok (), t') ∧
      ∀ q, t'[q]? = if q ∈ ancestors then some .folder else t[q]? := by
  induction ancestors generalizing t with
  | nil => exact ⟨t, rfl, by simp⟩
  | cons p ancestors ih =>
    rw [ensureFolders, Std.ExtTreeMap.get?_eq_getElem?]
    cases hp : t[p]? with
    | none =>
      have rest : ∀ q ∈ ancestors, ∀ c, (t.insert p .folder)[q]? ≠ some (.file c) := by
        intro q hq c
        rw [getElem?_insert_path]
        split
        · simp
        · exact h q (by simp [hq]) c
      obtain ⟨t', he, hg⟩ := ih rest
      refine ⟨t', he, fun q => ?_⟩
      rw [hg, getElem?_insert_path]
      by_cases ha : q ∈ ancestors <;> by_cases hq : q = p <;> simp [ha, hq]
    | some node =>
      cases node with
      | folder =>
        obtain ⟨t', he, hg⟩ := ih fun q hq => h q (by simp [hq])
        refine ⟨t', he, fun q => ?_⟩
        rw [hg]
        by_cases ha : q ∈ ancestors
        · simp [ha]
        · by_cases hq : q = p
          · subst hq
            simp [ha, hp]
          · simp [ha, hq]
      | file c => exact absurd hp (h p (by simp) c)

theorem ensureFolders_file {before after : List Path} {c : Bytes}
    (h : ∀ r ∈ before, t[r]? = some .folder) (hq : t[q]? = some (.file c)) :
    t.ensureFolders (before ++ q :: after) = (.error (.conflict q.toString), t) := by
  induction before with
  | nil => simp [ensureFolders, hq]
  | cons r before ih =>
    rw [List.cons_append, ensureFolders, Std.ExtTreeMap.get?_eq_getElem?, h r (by simp)]
    exact ih fun r hr => h r (by simp [hr])

/-- What is above a path comes in order, and what is above one of these comes first. -/
theorem ancestors_split (h : q ∈ p.ancestors) :
    ∃ after, p.ancestors = q.ancestors ++ q :: after := by
  obtain ⟨hp, hl⟩ := mem_ancestors.1 h
  obtain ⟨m, hm⟩ : ∃ m, p.segments.length = q.segments.length + (m + 1) :=
    ⟨p.segments.length - q.segments.length - 1, by omega⟩
  have first : (List.range q.segments.length).map (fun n => (⟨p.segments.take n⟩ : Path)) =
      q.ancestors := by
    apply List.map_congr_left
    intro n hn
    rw [List.prefix_iff_eq_take.1 hp, List.take_take, Nat.min_eq_left]
    exact Nat.le_of_lt (List.mem_range.1 hn)
  have middle : (⟨p.segments.take (q.segments.length + 0)⟩ : Path) = q :=
    congrArg Path.mk (List.prefix_iff_eq_take.1 hp).symm
  rw [ancestors, hm, List.range_add, List.map_append, first, List.range_succ_eq_map,
    List.map_cons, List.map_cons, middle]
  exact ⟨_, rfl⟩

/-- A file above a path is what the folders above it are refused for. -/
theorem Closed.ensureParents_file (h : t.Closed) (hq : q ∈ p.ancestors) {c : Bytes}
    (hc : t[q]? = some (.file c)) : t.ensureParents p = (.error (.conflict q.toString), t) := by
  obtain ⟨after, hs⟩ := ancestors_split hq
  rw [ensureParents, hs]
  exact ensureFolders_file (h.above q (by simp [hc])) hc

/-- The folders above a path either come to exist or are refused for a file among them;
a refusal comes before anything was created. -/
theorem Closed.ensureParents_cases (h : t.Closed) (p : Path) :
    (t.Unblocked p ∧ ∃ t', t.ensureParents p = (.ok (), t') ∧
      ∀ q, t'[q]? = if q ∈ p.ancestors then some .folder else t[q]?) ∨
    (¬t.Unblocked p ∧ ∃ subject, t.ensureParents p = (.error (.conflict subject), t)) := by
  by_cases hu : t.Unblocked p
  · exact .inl ⟨hu, ensureFolders_ok hu⟩
  · obtain ⟨q, hq, c, hc⟩ := not_unblocked_iff.1 hu
    exact .inr ⟨hu, q.toString, h.ensureParents_file hq hc⟩

theorem not_mem_ancestors_self (p : Path) : p ∉ p.ancestors :=
  fun h => Nat.lt_irrefl _ (mem_ancestors.1 h).2

theorem mem_ancestors_trans (hr : r ∈ q.ancestors) (hq : q ∈ p.ancestors) : r ∈ p.ancestors := by
  rw [mem_ancestors] at *
  exact ⟨hr.1.trans hq.1, Nat.lt_trans hr.2 hq.2⟩

/-- Adding a node together with the folders above it. -/
theorem Closed.grow (h : t.Closed) (hp : p.Canonical) (hr : p ≠ Path.root) {node : Node}
    (hn : t[p]? = none ∨ ∃ c, t[p]? = some (.file c))
    (hg : ∀ q : Path, t'[q]? = if q = p then some node
      else if q ∈ p.ancestors then some .folder else t[q]?) : t'.Closed where
  root := by
    rw [hg, if_neg (Ne.symm hr)]
    split
    · rfl
    · exact h.root
  canonical q hq := by
    rw [hg] at hq
    by_cases hqp : q = p
    · exact hqp ▸ hp
    by_cases ha : q ∈ p.ancestors
    · exact hp.of_prefix (mem_ancestors.1 ha).1
    · rw [if_neg hqp, if_neg ha] at hq
      exact h.canonical q hq
  above q hq r hr := by
    have upward (ha : r ∈ p.ancestors) : t'[r]? = some .folder := by
      rw [hg, if_neg (fun he : r = p => not_mem_ancestors_self p (he ▸ ha)), if_pos ha]
    rw [hg] at hq
    by_cases hqp : q = p
    · exact upward (hqp ▸ hr)
    by_cases ha : q ∈ p.ancestors
    · exact upward (mem_ancestors_trans hr ha)
    · rw [if_neg hqp, if_neg ha] at hq
      have old := h.above q hq r hr
      have hrp : r ≠ p := by
        rintro rfl
        rcases hn with hn | ⟨c, hn⟩ <;> rw [hn] at old <;> cases old
      rw [hg, if_neg hrp]
      split
      · rfl
      · exact old

theorem Closed.createFolder_cases (h : t.Closed) (p : Path) :
    (t[p]? = none ∧ t.Unblocked p ∧ ∃ t', t.createFolder p = (.ok (), t') ∧
      ∀ q : Path, t'[q]? = if q = p then some .folder
        else if q ∈ p.ancestors then some .folder else t[q]?) ∨
    ((t[p]? ≠ none ∨ ¬t.Unblocked p) ∧
      ∃ subject, t.createFolder p = (.error (.conflict subject), t)) := by
  by_cases hp : t[p]? = none
  · have absent := contains_eq_false hp
    rcases h.ensureParents_cases p with ⟨hu, t₁, he, hg⟩ | ⟨hu, subject, he⟩
    · refine .inl ⟨hp, hu, t₁.insert p .folder, ?_, fun q => ?_⟩
      · simp [createFolder, absent, he]
      · rw [getElem?_insert_path, hg]
    · exact .inr ⟨.inr hu, subject, by simp [createFolder, absent, he]⟩
  · exact .inr ⟨.inl hp, p.toString, by simp [createFolder, (contains_iff t p).2 hp]⟩

theorem Closed.store_cases (h : t.Closed) (p : Path) (content : Bytes) :
    (t[p]? ≠ some .folder ∧ t.Unblocked p ∧ ∃ t', t.store p content = (.ok (), t') ∧
      ∀ q : Path, t'[q]? = if q = p then some (.file content)
        else if q ∈ p.ancestors then some .folder else t[q]?) ∨
    ((t[p]? = some .folder ∨ ¬t.Unblocked p) ∧
      ∃ subject, t.store p content = (.error (.conflict subject), t)) := by
  by_cases hp : t[p]? = some .folder
  · exact .inr ⟨.inl hp, p.toString, by simp [store, hp, Node.isFolder]⟩
  · have other : (t[p]?).any Node.isFolder = false := by
      cases hn : t[p]? with
      | none => rfl
      | some node =>
        cases node with
        | folder => exact absurd hn hp
        | file c => rfl
    rcases h.ensureParents_cases p with ⟨hu, t₁, he, hg⟩ | ⟨hu, subject, he⟩
    · refine .inl ⟨hp, hu, t₁.insert p (.file content), ?_, fun q => ?_⟩
      · simp [store, other, he]
      · rw [getElem?_insert_path, hg]
    · exact .inr ⟨.inr hu, subject, by simp [store, other, he]⟩

theorem delete_cases (t : Tree) (p : Path) :
    (p ≠ Path.root ∧ t[p]? ≠ none ∧ ∃ t', t.delete p = (.ok (), t') ∧
      ∀ q : Path, t'[q]? = if q.isWithin p then none else t[q]?) ∨
    (p ≠ Path.root ∧ t[p]? = none ∧ t.delete p = (.error (.notFound p.toString), t)) ∨
    (p = Path.root ∧ ∃ detail, t.delete p = (.error (.providerApi "memory" detail), t)) := by
  by_cases hr : p = Path.root
  · exact .inr (.inr ⟨hr, _, by rw [delete, if_pos hr]⟩)
  by_cases hp : t[p]? = none
  · refine .inr (.inl ⟨hr, hp, ?_⟩)
    rw [delete, if_neg hr, contains_eq_false hp, if_neg Bool.false_ne_true]
  · refine .inl ⟨hr, hp, _, by rw [delete, if_neg hr, if_pos ((contains_iff t p).2 hp)], fun q => ?_⟩
    rw [Std.ExtTreeMap.getElem?_filter']
    cases t[q]? <;> cases q.isWithin p <;> rfl

theorem Closed.createFolder (h : t.Closed) (hp : p.Canonical) : (t.createFolder p).2.Closed := by
  rcases h.createFolder_cases p with ⟨hn, -, t', he, hg⟩ | ⟨-, subject, he⟩
  · rw [he]
    have hr : p ≠ Path.root := by
      rintro rfl
      rw [h.root] at hn
      cases hn
    exact h.grow hp hr (.inl hn) hg
  · rw [he]
    exact h

theorem Closed.store (h : t.Closed) (hp : p.Canonical) (content : Bytes) :
    (t.store p content).2.Closed := by
  rcases h.store_cases p content with ⟨hn, -, t', he, hg⟩ | ⟨-, subject, he⟩
  · rw [he]
    have hr : p ≠ Path.root := by
      rintro rfl
      exact hn h.root
    refine h.grow hp hr ?_ hg
    cases hp : t[p]? with
    | none => exact .inl rfl
    | some node =>
      cases node with
      | folder => exact absurd hp hn
      | file c => exact .inr ⟨c, rfl⟩
  · rw [he]
    exact h

theorem Closed.delete (h : t.Closed) (p : Path) : (t.delete p).2.Closed := by
  rcases delete_cases t p with ⟨hr, -, t', he, hg⟩ | ⟨-, -, he⟩ | ⟨-, detail, he⟩
  · rw [he]
    have kept {q : Path} (hq : t'[q]? ≠ none) : q.isWithin p = false ∧ t[q]? ≠ none := by
      rw [hg] at hq
      cases hw : q.isWithin p with
      | true => rw [hw, if_pos rfl] at hq; exact absurd rfl hq
      | false => rw [hw, if_neg Bool.false_ne_true] at hq; exact ⟨rfl, hq⟩
    have outside {q : Path} (hw : q.isWithin p = false) : t'[q]? = t[q]? := by
      rw [hg, hw, if_neg Bool.false_ne_true]
    refine ⟨?_, fun q hq => h.canonical q (kept hq).2, fun q hq r hr => ?_⟩
    · rw [outside, h.root]
      rw [← Bool.not_eq_true, isWithin_iff, Path.root, List.prefix_nil]
      exact fun he => hr (congrArg Path.mk he)
    · obtain ⟨hw, hq⟩ := kept hq
      rw [outside, h.above q hq r hr]
      rw [← Bool.not_eq_true, isWithin_iff] at hw ⊢
      exact fun hp => hw (hp.trans (mem_ancestors.1 hr).1)
  · rw [he]
    exact h
  · rw [he]
    exact h

end ChunkStore.Tree

import ChunkStore.Proofs.TreeClosure
import Mathlib.Data.List.Infix

/-!
# Moves in a closed tree

A move takes the nodes of a subtree one after the other to new paths. Source and target of
a move that is not refused lie apart, so no step meets a node that another step has put or
has still to take, and the tree after all steps can be read off the tree before.
-/

namespace ChunkStore.Tree

open ChunkStore.Path

variable {t t' : Tree} {p q r source target : Path}

/-- The path at the same place below `target` as `p` has below `source`. -/
def relocate (source target p : Path) : Path :=
  ⟨target.segments ++ p.segments.drop source.segments.length⟩

/-- Neither of two paths lies within the other. -/
def Apart (p q : Path) : Prop := ¬p.segments <+: q.segments ∧ ¬q.segments <+: p.segments

theorem relocate_within (source target p : Path) :
    target.segments <+: (relocate source target p).segments := List.prefix_append _ _

@[simp] theorem relocate_self (source target : Path) : relocate source target source = target := by
  simp [relocate]

theorem relocate_back (h : source.segments <+: p.segments) :
    relocate target source (relocate source target p) = p := by
  obtain ⟨rest, hr⟩ := h
  cases p
  simp only at hr
  subst hr
  simp [relocate]

theorem Apart.not_within (h : Apart source target) (hp : source.segments <+: p.segments) :
    ¬target.segments <+: p.segments := by
  intro ht
  rcases Nat.le_total source.segments.length target.segments.length with hl | hl
  · exact h.1 (List.prefix_of_prefix_length_le hp ht hl)
  · exact h.2 (List.prefix_of_prefix_length_le ht hp hl)

/-- One step of a move: `p` loses its node, its new path gains it, all else stays. -/
theorem getElem?_shift (t : Tree) (source target p q : Path) (node : Node) :
    ((t.erase p).insert (relocate source target p) node)[q]? =
      if q = relocate source target p then some node else if q = p then none else t[q]? := by
  rw [getElem?_insert_path, getElem?_erase_path]

theorem rekey_cons {moved : List Path} {node : Node} (h : t[p]? = some node) :
    rekey source target (p :: moved) t =
      rekey source target moved ((t.erase p).insert (relocate source target p) node) := by
  rw [rekey, Std.ExtTreeMap.get?_eq_getElem?, h]
  rfl

/-- What a path holds after the nodes in `moved` were taken away to below `target`. -/
theorem getElem?_rekey (h : Apart source target) {moved : List Path} (distinct : moved.Nodup)
    (within : ∀ p ∈ moved, source.segments <+: p.segments) (present : ∀ p ∈ moved, t[p]? ≠ none)
    (q : Path) :
    (rekey source target moved t)[q]? =
      if target.segments <+: q.segments ∧ relocate target source q ∈ moved then
        t[relocate target source q]?
      else if q ∈ moved then none else t[q]? := by
  induction moved generalizing t with
  | nil => simp [rekey]
  | cons p moved ih =>
    have hp := within p (by simp)
    obtain ⟨fresh, distinct⟩ := List.nodup_cons.1 distinct
    obtain ⟨node, hn⟩ := Option.ne_none_iff_exists'.1 (present p (by simp))
    -- The paths that are still to be moved are neither `p` nor the new path of `p`.
    have others : ∀ r ∈ moved,
        ((t.erase p).insert (relocate source target p) node)[r]? = t[r]? := by
      intro r hr
      rw [getElem?_shift, if_neg, if_neg]
      · intro he
        exact fresh (he ▸ hr)
      · intro he
        have below := within r (by simp [hr])
        rw [he] at below
        exact h.not_within below (relocate_within source target p)
    rw [rekey_cons hn, ih distinct (fun r hr => within r (by simp [hr]))
      fun r hr => by rw [others r hr]; exact present r (by simp [hr])]
    by_cases ht : target.segments <+: q.segments
    · have outside : q ∉ p :: moved := fun hq => h.not_within (within q hq) ht
      simp only [List.mem_cons, not_or] at outside
      by_cases hm : relocate target source q ∈ moved
      · simp [ht, hm, others _ hm]
      · by_cases he : relocate target source q = p
        · have back : q = relocate source target p := by rw [← he, relocate_back ht]
          rw [if_neg (by simp [hm]), if_neg outside.2, getElem?_shift, if_pos back,
            if_pos (by simp [ht, he]), he, hn]
        · have forth : q ≠ relocate source target p := by
            intro new
            exact he (new ▸ relocate_back hp)
          simp [hm, he, outside, getElem?_shift, forth]
    · have forth : q ≠ relocate source target p := by
        intro new
        exact ht (new ▸ relocate_within source target p)
      by_cases hm : q ∈ moved
      · simp [ht, hm]
      · by_cases he : q = p
        · subst he
          simp [ht, hm, getElem?_shift, forth]
        · simp [ht, hm, he, getElem?_shift, forth]

/-- `t'` is `t` with all that was within `source` at its new place within `target`, and with
folders above `target`. -/
def Grafted (source target : Path) (t t' : Tree) : Prop :=
  ∀ q : Path, t'[q]? = if target.segments <+: q.segments then t[relocate target source q]?
    else if source.segments <+: q.segments then none
    else if q ∈ target.ancestors then some .folder else t[q]?

namespace Grafted

variable (G : Grafted source target t t')
include G

theorem within (h : target.segments <+: q.segments) : t'[q]? = t[relocate target source q]? := by
  rw [G q, if_pos h]

theorem vacated (h : Apart source target) (hq : source.segments <+: q.segments) :
    t'[q]? = none := by
  rw [G q, if_neg (h.not_within hq), if_pos hq]

theorem outside (ht : ¬target.segments <+: q.segments) (hs : ¬source.segments <+: q.segments) :
    t'[q]? = if q ∈ target.ancestors then some .folder else t[q]? := by
  rw [G q, if_neg ht, if_neg hs]

theorem upward (h : Apart source target) (ha : q ∈ target.ancestors) : t'[q]? = some .folder := by
  obtain ⟨above, shorter⟩ := mem_ancestors.1 ha
  rw [G.outside, if_pos ha]
  · intro below
    have := below.length_le
    omega
  · intro below
    exact h.1 (below.trans above)

theorem folder (ht : ¬target.segments <+: q.segments) (hs : ¬source.segments <+: q.segments)
    (old : t[q]? = some .folder) : t'[q]? = some .folder := by
  rw [G.outside ht hs]
  split
  · rfl
  · exact old

end Grafted

theorem relocate_mem_ancestors (ht : target.segments <+: r.segments) (h : r ∈ q.ancestors) :
    relocate target source r ∈ (relocate target source q).ancestors := by
  obtain ⟨above, shorter⟩ := mem_ancestors.1 h
  have long := ht.length_le
  apply mem_ancestors.2
  constructor
  · exact (List.prefix_append_right_inj _).2 (List.IsPrefix.drop above _)
  · simp only [relocate, List.length_append, List.length_drop]
    omega

theorem Closed.graft (h : t.Closed) (ht : target.Canonical) (hs : source ≠ Path.root)
    (vacant : t[target]? = none) (apart : Apart source target) (G : Grafted source target t t') :
    t'.Closed where
  root := by
    apply G.folder _ _ h.root
    · rw [Path.root, List.prefix_nil]
      intro he
      rw [show target = Path.root from congrArg Path.mk he, h.root] at vacant
      cases vacant
    · rw [Path.root, List.prefix_nil]
      exact fun he => hs (congrArg Path.mk he)
  canonical q hq := by
    by_cases hqt : target.segments <+: q.segments
    · rw [G.within hqt] at hq
      have old := h.canonical _ hq
      obtain ⟨rest, hrest⟩ := hqt
      intro name hm
      rw [← hrest] at hm
      rcases List.mem_append.1 hm with hm | hm
      · exact ht name hm
      · exact old name (by simp [relocate, ← hrest, hm])
    by_cases hqs : source.segments <+: q.segments
    · exact absurd (G.vacated apart hqs) hq
    by_cases ha : q ∈ target.ancestors
    · exact ht.of_prefix (mem_ancestors.1 ha).1
    · rw [G.outside hqt hqs, if_neg ha] at hq
      exact h.canonical q hq
  above q hq r hr := by
    obtain ⟨above, shorter⟩ := mem_ancestors.1 hr
    by_cases hqt : target.segments <+: q.segments
    · -- What is above a moved node is above the target, or was moved with it.
      rcases Nat.lt_or_ge r.segments.length target.segments.length with hl | hl
      · have higher := List.prefix_of_prefix_length_le above hqt (Nat.le_of_lt hl)
        exact G.upward apart (mem_ancestors.2 ⟨higher, hl⟩)
      · have hrt := List.prefix_of_prefix_length_le hqt above hl
        rw [G.within hqt] at hq
        rw [G.within hrt]
        exact h.above _ hq _ (relocate_mem_ancestors hrt hr)
    by_cases hqs : source.segments <+: q.segments
    · exact absurd (G.vacated apart hqs) hq
    by_cases ha : q ∈ target.ancestors
    · exact G.upward apart (mem_ancestors_trans hr ha)
    · rw [G.outside hqt hqs, if_neg ha] at hq
      have old := h.above q hq r hr
      exact G.folder (fun hp => hqt (hp.trans above)) (fun hp => hqs (hp.trans above)) old

theorem Closed.apart_of_move (h : t.Closed) (hs : t[source]? ≠ none) (ht : t[target]? = none)
    (hw : target.isWithin source = false) : Apart source target := by
  refine ⟨?_, fun hp => h.of_prefix hs hp ht⟩
  rw [← isWithin_iff, hw]
  exact Bool.false_ne_true

/-- Once the folders above the target are there, the nodes within the source are moved. -/
theorem Closed.grafted_rekey (h : t.Closed) (apart : Apart source target)
    (vacant : t[target]? = none)
    (hg : ∀ q, t'[q]? = if q ∈ target.ancestors then some .folder else t[q]?) :
    Grafted source target t (rekey source target (t'.keys.filter (·.isWithin source)) t') := by
  intro q
  have same {r : Path} (hr : source.segments <+: r.segments) : t'[r]? = t[r]? := by
    rw [hg, if_neg fun ha => apart.1 (hr.trans (mem_ancestors.1 ha).1)]
  have mem {r : Path} : r ∈ t'.keys.filter (·.isWithin source) ↔
      t'[r]? ≠ none ∧ source.segments <+: r.segments := by
    rw [List.mem_filter, Std.ExtTreeMap.mem_keys, isWithin_iff,
      Std.ExtTreeMap.mem_iff_isSome_getElem?, Option.isSome_iff_ne_none]
  rw [getElem?_rekey apart (List.Pairwise.filter _ Std.ExtTreeMap.nodup_keys)
    (fun p hp => (mem.1 hp).2) fun p hp => (mem.1 hp).1]
  by_cases hq : target.segments <+: q.segments
  · have hqs : ¬source.segments <+: q.segments := fun hp => apart.not_within hp hq
    have back : source.segments <+: (relocate target source q).segments :=
      relocate_within target source q
    have below : q ∉ target.ancestors := by
      intro ha
      have := hq.length_le
      have := (mem_ancestors.1 ha).2
      omega
    have empty : t'[q]? = none := by
      rw [hg, if_neg below, h.none_below vacant hq]
    by_cases hb : t[relocate target source q]? = none
    · simp [hq, mem, hqs, same back, hb, empty]
    · simp [hq, mem, same back, hb, back]
  · by_cases hqs : source.segments <+: q.segments
    · simp only [hq, false_and, ↓reduceIte, mem, hqs, and_true]
      by_cases hn : t'[q]? = none
      · rw [if_neg (not_not.2 hn), hn]
      · rw [if_pos hn]
    · simp [hq, mem, hqs, hg]

/-- A move is refused and changes nothing, or it takes over exactly the nodes within its
source and creates the folders above its target. -/
theorem Closed.move_cases (h : t.Closed) (source target : Path) :
    (t[source]? ≠ none ∧ t[target]? = none ∧ source ≠ Path.root ∧ target.isWithin source = false ∧
      t.Unblocked target ∧ ∃ t', t.move source target = (.ok (), t') ∧
      Grafted source target t t') ∨
    (t[source]? = none ∧ t.move source target = (.error (.notFound source.toString), t)) ∨
    (t[source]? ≠ none ∧ t[target]? ≠ none ∧
      t.move source target = (.error (.conflict target.toString), t)) ∨
    (t[source]? ≠ none ∧ t[target]? = none ∧
      (source = Path.root ∨ target.isWithin source = true) ∧
      ∃ detail, t.move source target = (.error (.providerApi "memory" detail), t)) ∨
    (t[source]? ≠ none ∧ t[target]? = none ∧ ¬t.Unblocked target ∧
      ∃ subject, t.move source target = (.error (.conflict subject), t)) := by
  by_cases hs : t[source]? = none
  · exact .inr (.inl ⟨hs, by simp [move, contains_eq_false hs]⟩)
  have here := (contains_iff t source).2 hs
  by_cases ht : t[target]? = none
  · have vacant := contains_eq_false ht
    by_cases hi : source = Path.root ∨ target.isWithin source = true
    · exact .inr (.inr (.inr (.inl ⟨hs, ht, hi, _, by simp [move, here, vacant, hi]; rfl⟩)))
    · have hr : source ≠ Path.root := fun he => hi (.inl he)
      have hw : target.isWithin source = false := by simpa using fun he => hi (.inr he)
      have apart := h.apart_of_move hs ht hw
      rcases h.ensureParents_cases target with ⟨hu, t₁, he, hg⟩ | ⟨hu, subject, he⟩
      · have moved : t.move source target =
            (.ok (), rekey source target (t₁.keys.filter (·.isWithin source)) t₁) := by
          simp [move, here, vacant, hi, he]
        exact .inl ⟨hs, ht, hr, hw, hu, _, moved, h.grafted_rekey apart ht hg⟩
      · exact .inr (.inr (.inr (.inr ⟨hs, ht, hu, subject, by simp [move, here, vacant, hi, he]⟩)))
  · have taken := (contains_iff t target).2 ht
    exact .inr (.inr (.inl ⟨hs, ht, by simp [move, here, taken]⟩))

theorem Closed.move (h : t.Closed) (source : Path) (ht : target.Canonical) :
    (t.move source target).2.Closed := by
  rcases h.move_cases source target with ⟨hs, hn, hr, hw, hu, t', he, G⟩ | ⟨-, he⟩ | ⟨-, -, he⟩ |
    ⟨-, -, -, detail, he⟩ | ⟨-, -, -, subject, he⟩
  · rw [he]
    exact h.graft ht hr hn (h.apart_of_move hs hn hw) G
  all_goals
    rw [he]
    exact h

end ChunkStore.Tree

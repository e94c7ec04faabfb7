import ChunkStore.Proofs.TreeClosure

/-!
# Nodes by the texts of their paths

A service names its nodes by texts. Only a text in normal form names one, and each such text
is that of one canonical path. Whether a path lies within another can be told from the texts
alone: one of them is the other, or continues it with a separator. A text that continues
another in some other way, as `/ab` does with `/a`, names something beside it.
-/

namespace ChunkStore

namespace Path

/-- A text that may follow a whole segment: it is empty or begins with a separator. -/
def Continues (s : String) : Prop := s = "" ∨ s.toList.head? = some '/'

instance (s : String) : Decidable (Continues s) := inferInstanceAs (Decidable (_ ∨ _))

theorem Continues.head {s : String} (h : Continues s) : ∀ c ∈ s.toList.head?, c = '/' := by
  intro c first
  cases h with
  | inl empty =>
    rw [empty] at first
    cases first
  | inr slash =>
    rw [slash] at first
    exact (Option.some.inj first).symm

/-- `key` is `base` or lies below it. -/
def Under (base key : String) : Prop :=
  key = base ∨ base = "/" ∨ (base ++ "/").toList <+: key.toList

instance (base key : String) : Decidable (Under base key) :=
  inferInstanceAs (Decidable (_ ∨ _ ∨ _))

/-- Where two texts go on with a separator, or end, their first segments end too. -/
theorem append_continued {a b x y : List Char} (ha : '/' ∉ a) (hb : '/' ∉ b)
    (hx : ∀ c ∈ x.head?, c = '/') (hy : ∀ c ∈ y.head?, c = '/') (h : a ++ x = b ++ y) :
    a = b ∧ x = y := by
  induction a generalizing b with
  | nil =>
    cases b with
    | nil => exact ⟨rfl, h⟩
    | cons c b =>
      obtain rfl : x = c :: (b ++ y) := h
      exact absurd (hx c rfl) fun he => hb (he ▸ List.mem_cons_self ..)
  | cons c a ih =>
    cases b with
    | nil =>
      obtain rfl : c :: (a ++ x) = y := h
      exact absurd (hy c rfl) fun he => ha (he ▸ List.mem_cons_self ..)
    | cons d b =>
      obtain ⟨rfl, rest⟩ := List.cons.inj h
      obtain ⟨rfl, same⟩ := ih (fun m => ha (List.mem_cons_of_mem _ m))
        (fun m => hb (List.mem_cons_of_mem _ m)) rest
      exact ⟨rfl, same⟩

theorem continues_written (segments : List String) :
    ∀ c ∈ (written segments).head?, c = '/' := by
  cases segments with
  | nil => simp [written]
  | cons s segments => simp [written]

theorem written_append (p q : List String) : written (p ++ q) = written p ++ written q := by
  simp [written]

theorem written_prefix {p q : List String} {s : List Char} (hp : ∀ name ∈ p, IsName name)
    (hq : ∀ name ∈ q, IsName name) (hs : ∀ c ∈ s.head?, c = '/')
    (h : written p ++ s = written q) : ∃ r, q = p ++ r ∧ s = written r := by
  induction p generalizing q with
  | nil => exact ⟨q, rfl, h⟩
  | cons a p ih =>
    cases q with
    | nil => simp [written] at h
    | cons b q =>
      have tails : a.toList ++ (written p ++ s) = b.toList ++ written q := by
        simpa [written] using h
      -- Both names end at a separator or at the end of the text, so they are one name.
      have continued : ∀ c ∈ (written p ++ s).head?, c = '/' := by
        cases p with
        | nil => exact hs
        | cons d p => simp [written]
      obtain ⟨first, rest⟩ := append_continued (hp a (by simp)).2.2.2 (hq b (by simp)).2.2.2
        continued (continues_written q) tails
      obtain rfl := String.toList_inj.1 first
      obtain ⟨r, rfl, hr⟩ := ih (fun n hn => hp n (by simp [hn])) (fun n hn => hq n (by simp [hn]))
        rest
      exact ⟨r, rfl, hr⟩

variable {p q : Path} {s key : String}

theorem toString_eq_slash (h : p.Canonical) : p.toString = "/" ↔ p = root := by
  constructor
  · exact fun he => toString_injective h canonical_root he
  · rintro rfl
    rfl

theorem two_le_length_toString (hp : p.Canonical) (hr : p ≠ root) :
    2 ≤ p.toString.toList.length := by
  rw [toList_toString hr]
  cases hseg : p.segments with
  | nil => exact absurd (congrArg Path.mk hseg) hr
  | cons a rest =>
    have name := List.length_pos_iff.2 (hp a (by simp [hseg])).1
    simp only [written, List.flatMap_cons, List.length_append, List.length_cons]
    omega

theorem toString_resolve (h : p ≠ root) (q : Path) :
    (p.resolve q).toString = p.toString ++ String.ofList (written q.segments) := by
  have below : p.resolve q ≠ root := by
    intro he
    have empty : p.segments ++ q.segments = [] := congrArg segments he
    exact h (congrArg Path.mk (List.append_eq_nil_iff.1 empty).1)
  rw [← String.toList_inj, String.toList_append, toList_toString below, toList_toString h,
    String.toList_ofList, resolve, written_append]

/-- A text in normal form that continues that of a path is the text of something below it. -/
theorem exists_below (hp : p.Canonical) (hr : p ≠ root) (hs : Continues s)
    (normal : normalize (p.toString ++ s) = p.toString ++ s) :
    ∃ q : Path, q.Canonical ∧ s = String.ofList (written q.segments) := by
  have whole := canonical_parse (p.toString ++ s)
  have below : Path.parse (p.toString ++ s) ≠ root := by
    intro he
    have short : p.toString ++ s = "/" := by
      rw [← normal, normalize, he]
      rfl
    have long := two_le_length_toString hp hr
    have lengths := congrArg (fun text => text.toList.length) short
    simp only [String.toList_append, List.length_append] at lengths
    have one : "/".toList.length = 1 := rfl
    omega
  have texts : written p.segments ++ s.toList = written (Path.parse (p.toString ++ s)).segments := by
    rw [← toList_toString hr, ← toList_toString below, ← String.toList_append]
    exact congrArg String.toList normal.symm
  obtain ⟨r, split, hsr⟩ := written_prefix hp whole hs.head texts
  refine ⟨⟨r⟩, fun n hn => whole n ?_, ?_⟩
  · rw [split]
    exact List.mem_append_right _ hn
  · rw [← hsr, String.ofList_toList]

theorem prefix_of_text (hp : p.Canonical) (hq : q.Canonical)
    (front : (p.toString ++ "/").toList <+: q.toString.toList) : p.segments <+: q.segments := by
  by_cases hr : p = root
  · rw [hr]
    exact List.nil_prefix
  have below : q ≠ root := by
    intro top
    have short := front.length_le
    have long := two_le_length_toString hp hr
    have one : root.toString.toList.length = 1 := rfl
    rw [top, one, String.toList_append, List.length_append] at short
    omega
  obtain ⟨rest, split⟩ := front
  have texts : written p.segments ++ ('/' :: rest) = written q.segments := by
    rw [← toList_toString hr, ← toList_toString below, ← split, String.toList_append]
    simp
  obtain ⟨r, segments, -⟩ := written_prefix hp hq (by simp) texts
  exact ⟨r, segments.symm⟩

theorem under_resolve (hp : p.Canonical) (q : Path) : Under p.toString (p.resolve q).toString := by
  by_cases hr : p = root
  · exact .inr (.inl ((toString_eq_slash hp).2 hr))
  rw [toString_resolve hr]
  cases q with
  | mk segments =>
    cases segments with
    | nil => exact .inl (by simp [written])
    | cons a more => exact .inr (.inr ⟨a.toList ++ written more, by simp [written]⟩)

/-- Whether a path lies within another can be told from the texts. -/
theorem under_iff (hp : p.Canonical) (hq : q.Canonical) :
    Under p.toString q.toString ↔ p.segments <+: q.segments := by
  constructor
  · intro under
    rcases under with same | top | front
    · obtain rfl := toString_injective hq hp same
      exact List.prefix_refl _
    · rw [(toString_eq_slash hp).1 top]
      exact List.nil_prefix
    · exact prefix_of_text hp hq front
  · intro within
    obtain ⟨rest, split⟩ := within
    obtain rfl : p.resolve ⟨rest⟩ = q := congrArg Path.mk split
    exact under_resolve hp ⟨rest⟩

/-- `key` names a folder above `base`. -/
def Above (base key : String) : Prop := normalize key = key ∧ Under key base ∧ key ≠ base

instance (base key : String) : Decidable (Above base key) :=
  inferInstanceAs (Decidable (_ ∧ _ ∧ _))

theorem above_iff (hp : p.Canonical) (hq : q.Canonical) :
    Above p.toString q.toString ↔ q ∈ p.ancestors := by
  have normal : normalize q.toString = q.toString := by rw [normalize, parse_toString hq]
  rw [Above, under_iff hq hp, mem_ancestors]
  constructor
  · rintro ⟨-, front, other⟩
    refine ⟨front, Nat.lt_of_le_of_ne front.length_le fun same => other ?_⟩
    exact congrArg (fun segments => Path.toString ⟨segments⟩) (front.eq_of_length same)
  · rintro ⟨front, shorter⟩
    refine ⟨normal, front, fun same => ?_⟩
    rw [toString_injective hq hp same] at shorter
    exact Nat.lt_irrefl _ shorter

theorem of_normal (normal : normalize key = key) : ∃ q : Path, q.Canonical ∧ q.toString = key :=
  ⟨Path.parse key, canonical_parse key, normal⟩

end Path

namespace Tree

open ChunkStore.Path

/-- The node that the tree holds under a text. Only normal forms are keys. -/
def node? (t : Tree) (key : String) : Option Node :=
  if normalize key = key then t[Path.parse key]? else none

variable {t : Tree} {p q : Path} {s key : String}

theorem node?_toString (t : Tree) (h : q.Canonical) : t.node? q.toString = t[q]? := by
  have same := parse_toString h
  rw [node?, normalize, same, if_pos rfl]

theorem node?_strange (h : normalize key ≠ key) : t.node? key = none := if_neg h

theorem exists_of_node? (h : t.node? key ≠ none) : ∃ q : Path, q.Canonical ∧ q.toString = key := by
  apply of_normal
  by_contra strange
  exact h (node?_strange strange)

/-- What is kept at a text that continues that of a path: the node below it to which the
continuation leads, or nothing. Where it leads to does not depend on the path. -/
theorem node?_append (hs : Continues s) :
    (∃ q : Path, q.Canonical ∧ ∀ (t : Tree) (p : Path), p.Canonical → p ≠ root →
      t.node? (p.toString ++ s) = t[p.resolve q]?) ∨
    ∀ (t : Tree) (p : Path), p.Canonical → p ≠ root → t.node? (p.toString ++ s) = none := by
  by_cases spelled : ∃ q : Path, q.Canonical ∧ s = String.ofList (written q.segments)
  · obtain ⟨q, hq, rfl⟩ := spelled
    refine .inl ⟨q, hq, fun t p hp hr => ?_⟩
    rw [← toString_resolve hr, node?_toString t (hp.resolve hq)]
  · refine .inr fun t p hp hr => node?_strange fun normal => spelled ?_
    exact exists_below hp hr hs normal

theorem node?_append_none (hp : p.Canonical) (hr : p ≠ root) (hs : Continues s)
    (empty : ∀ q, t[p.resolve q]? = none) : t.node? (p.toString ++ s) = none := by
  rcases node?_append hs with ⟨q, -, led⟩ | nowhere
  · rw [led t p hp hr, empty]
  · exact nowhere t p hp hr

/-- Where the same is below two paths, the same is kept at texts that continue theirs alike. -/
theorem node?_append_congr {t' : Tree} {p' : Path} (hp : p.Canonical) (hr : p ≠ root)
    (hp' : p'.Canonical) (hr' : p' ≠ root) (hs : Continues s)
    (same : ∀ q, t'[p'.resolve q]? = t[p.resolve q]?) :
    t'.node? (p'.toString ++ s) = t.node? (p.toString ++ s) := by
  rcases node?_append hs with ⟨q, -, led⟩ | nowhere
  · rw [led t' p' hp' hr', led t p hp hr, same]
  · rw [nowhere t' p' hp' hr', nowhere t p hp hr]

end Tree

end ChunkStore

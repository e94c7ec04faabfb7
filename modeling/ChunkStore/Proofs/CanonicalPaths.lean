import ChunkStore.Path

/-!
# Canonical paths

A path is canonical when each of its segments is a name: not empty, neither dot segment,
and without a separator. Reading a text always gives such a path, and a canonical path is
read back from its own text. The tree of a store holds canonical paths only, so a path
may travel to a service as text and arrive unchanged.
-/

namespace ChunkStore

namespace Text

theorem split_of_not_mem {mark : Char} {cs : List Char} (h : mark ∉ cs) :
    split mark cs = [cs] := by
  induction cs with
  | nil => rfl
  | cons c cs ih =>
    simp only [List.mem_cons, not_or] at h
    rw [split, if_neg (Ne.symm h.1), ih h.2]

/-- A mark ends the parts before it. -/
theorem split_append (mark : Char) (cs rest : List Char) :
    split mark (cs ++ mark :: rest) = split mark cs ++ split mark rest := by
  induction cs with
  | nil => simp [split]
  | cons c cs ih =>
    rw [List.cons_append, split, split, ih]
    by_cases hc : c = mark
    · rw [if_pos hc, if_pos hc, List.cons_append]
    · rw [if_neg hc, if_neg hc]
      cases hs : split mark cs with
      | nil => exact absurd hs (split_ne_nil mark cs)
      | cons part parts => rfl

theorem split_append_mark {mark : Char} {cs : List Char} (rest : List Char) (h : mark ∉ cs) :
    split mark (cs ++ mark :: rest) = cs :: split mark rest := by
  rw [split_append, split_of_not_mem h, List.singleton_append]

theorem not_mem_of_mem_split {mark : Char} {cs part : List Char} (h : part ∈ split mark cs) :
    mark ∉ part := by
  induction cs generalizing part with
  | nil => simp_all [split]
  | cons c cs ih =>
    rw [split] at h
    by_cases hc : c = mark
    · rw [if_pos hc] at h
      rcases List.mem_cons.1 h with rfl | h
      · simp
      · exact ih h
    · rw [if_neg hc] at h
      cases hs : split mark cs with
      | nil => exact absurd hs (split_ne_nil mark cs)
      | cons first others =>
        rw [hs] at h ih
        rcases List.mem_cons.1 h with rfl | h
        · simp only [List.mem_cons, not_or]
          exact ⟨Ne.symm hc, ih (by simp)⟩
        · exact ih (by simp [h])

end Text

namespace Path

/-- What a segment may be so that no reader of paths takes it for something else. -/
def IsName (s : String) : Prop :=
  s.toList ≠ [] ∧ s.toList ≠ ['.'] ∧ s.toList ≠ ['.', '.'] ∧ '/' ∉ s.toList

def Canonical (p : Path) : Prop := ∀ s ∈ p.segments, IsName s

theorem canonical_root : root.Canonical := by simp [Canonical, root]

theorem Canonical.resolve {p q : Path} (hp : p.Canonical) (hq : q.Canonical) :
    (p.resolve q).Canonical := by
  intro s hs
  rcases List.mem_append.1 hs with hs | hs
  · exact hp s hs
  · exact hq s hs

theorem Canonical.of_resolve {p q : Path} (h : (p.resolve q).Canonical) : q.Canonical :=
  fun s hs => h s (List.mem_append_right _ hs)

theorem Canonical.child {p : Path} (hp : p.Canonical) {name : String} (hn : IsName name) :
    (⟨p.segments ++ [name]⟩ : Path).Canonical :=
  hp.resolve (q := ⟨[name]⟩) (by simpa [Canonical] using hn)

theorem prefix_resolve (p q : Path) : p.segments <+: (p.resolve q).segments :=
  List.prefix_append _ _

theorem Canonical.of_prefix {p q : Path} (hp : p.Canonical) (h : q.segments <+: p.segments) :
    q.Canonical :=
  fun s hs => hp s (h.subset hs)

theorem follow_name (floor : Nat) (segments : List String) {name : String} (h : IsName name) :
    follow floor segments name.toList = segments ++ [name] := by
  obtain ⟨h₁, h₂, h₃, -⟩ := h
  unfold follow
  split <;> simp_all

/-- One piece of a text keeps a canonical prefix canonical, whatever the piece is. -/
theorem follow_names (floor : Nat) {segments : List String} {piece : List Char}
    (hs : ∀ s ∈ segments, IsName s) (hp : '/' ∉ piece) :
    ∀ s ∈ follow floor segments piece, IsName s := by
  unfold follow
  split
  · exact hs
  · exact hs
  · split
    · exact fun s h => hs s ((List.dropLast_prefix _).subset h)
    · exact hs
  · rename_i h₁ h₂ h₃
    intro s h
    rcases List.mem_append.1 h with h | h
    · exact hs s h
    · obtain rfl := List.mem_singleton.1 h
      refine ⟨?_, ?_, ?_, ?_⟩
      · simpa using h₁
      · simpa using h₂
      · simpa using h₃
      · simpa using hp

theorem Canonical.join {p : Path} (hp : p.Canonical) (text : String) :
    (p.join text).Canonical := by
  have step (pieces : List (List Char)) (segments : List String)
      (hs : ∀ s ∈ segments, IsName s) (hm : ∀ piece ∈ pieces, '/' ∉ piece) :
      ∀ s ∈ pieces.foldl (follow p.segments.length) segments, IsName s := by
    induction pieces generalizing segments with
    | nil => exact hs
    | cons piece pieces ih =>
      rw [List.foldl_cons]
      exact ih _ (follow_names _ hs (hm piece (by simp))) fun q hq => hm q (by simp [hq])
  exact step _ _ hp fun _ h => Text.not_mem_of_mem_split h

theorem canonical_parse (text : String) : (Path.parse text).Canonical :=
  canonical_root.join text

/-- A name is appended as it is. -/
theorem join_name (p : Path) {name : String} (h : IsName name) :
    p.join name = ⟨p.segments ++ [name]⟩ := by
  unfold join pieces
  rw [Text.split_of_not_mem h.2.2.2, List.foldl_cons, List.foldl_nil, follow_name _ _ h]

/-- A name put behind a text, with a separator in between, is appended to its path. -/
theorem parse_append_name (text : String) {name : String} (h : IsName name) :
    Path.parse (text ++ "/" ++ name) = ⟨(Path.parse text).segments ++ [name]⟩ := by
  have cut : pieces (text ++ "/" ++ name).toList = pieces text.toList ++ [name.toList] := by
    rw [String.toList_append, String.toList_append, List.append_assoc]
    exact (Text.split_append '/' text.toList name.toList).trans
      (congrArg (Text.split '/' text.toList ++ ·) (Text.split_of_not_mem h.2.2.2))
  rw [Path.parse, join, cut, List.foldl_append, List.foldl_cons, List.foldl_nil, follow_name _ _ h]
  rfl

/-- The characters of a path's text, separators included. -/
def written (segments : List String) : List Char := segments.flatMap fun s => '/' :: s.toList

theorem toList_toString {p : Path} (h : p ≠ root) :
    p.toString.toList = written p.segments := by
  have nonempty : p.segments.isEmpty = false := by
    rw [List.isEmpty_eq_false_iff]
    exact fun he => h (by cases p; simp_all [root])
  rw [Path.toString, nonempty]
  simp [written, String.toList_join, List.flatMap_map]

theorem foldl_follow_written (floor : Nat) (s : String) (rest base : List String)
    (h : ∀ name ∈ s :: rest, IsName name) :
    (pieces (s.toList ++ written rest)).foldl (follow floor) base = base ++ s :: rest := by
  induction rest generalizing s base with
  | nil =>
    have hs := h s (by simp)
    simp [written, pieces, Text.split_of_not_mem hs.2.2.2, follow_name _ _ hs]
  | cons t rest ih =>
    have hs := h s (by simp)
    have tail : ∀ name ∈ t :: rest, IsName name := fun name hn => h name (by simp_all)
    have cut : pieces (s.toList ++ written (t :: rest)) =
        s.toList :: pieces (t.toList ++ written rest) := by
      simp only [written, List.flatMap_cons, List.cons_append]
      exact Text.split_append_mark _ hs.2.2.2
    rw [cut, List.foldl_cons, follow_name _ _ hs, ih t _ tail]
    simp

/-- A canonical path is read back from its text. -/
theorem parse_toString {p : Path} (h : p.Canonical) : Path.parse p.toString = p := by
  by_cases hr : p = root
  · subst hr
    rfl
  cases p with
  | mk segments =>
    cases segments with
    | nil => exact absurd rfl hr
    | cons s rest =>
      have cut : pieces (Path.toString ⟨s :: rest⟩).toList =
          [] :: pieces (s.toList ++ written rest) := by
        rw [toList_toString hr]
        simp [written, pieces, Text.split]
      unfold Path.parse join
      rw [cut, List.foldl_cons]
      exact congrArg Path.mk (foldl_follow_written _ s rest [] h)

theorem toString_injective {p q : Path} (hp : p.Canonical) (hq : q.Canonical)
    (h : p.toString = q.toString) : p = q := by
  rw [← parse_toString hp, ← parse_toString hq, h]

theorem parse_normalize (text : String) : Path.parse (normalize text) = Path.parse text :=
  parse_toString (canonical_parse text)

/-- Texts have one normal form where they name one path. -/
theorem normalize_eq_iff {text other : String} :
    normalize text = normalize other ↔ Path.parse text = Path.parse other := by
  constructor
  · intro same
    exact toString_injective (canonical_parse text) (canonical_parse other) same
  · intro same
    exact congrArg Path.toString same

theorem mem_ancestors {p q : Path} :
    q ∈ p.ancestors ↔ q.segments <+: p.segments ∧ q.segments.length < p.segments.length := by
  cases q with
  | mk segments =>
    simp only [ancestors, List.mem_map, List.mem_range, Path.mk.injEq]
    constructor
    · rintro ⟨n, hn, rfl⟩
      exact ⟨List.take_prefix n _, by simp; omega⟩
    · rintro ⟨hp, hl⟩
      exact ⟨segments.length, hl, (List.prefix_iff_eq_take.1 hp).symm⟩

theorem isWithin_iff {p q : Path} : p.isWithin q = true ↔ q.segments <+: p.segments := by
  simp [isWithin]

end Path

end ChunkStore

import ChunkStore.Proofs.FolderEntries

/-!
# Laws of paths

Every operation on paths gives a canonical path when it is given canonical ones, and a path is
put together again from its parent and its name, or from its text. So the normal form of a text
is determined by the path that the text names, and a text may be brought into normal form before
something is put behind it.
-/

namespace ChunkStore

namespace Path

variable {p q : Path}

theorem Canonical.parent (hp : p.Canonical) (h : p.parent? = some q) : q.Canonical := by
  obtain ⟨name, rfl⟩ := parent?_eq_some_iff.1 h
  exact hp.of_prefix (List.prefix_append _ _)

theorem exists_child (h : p ≠ root) : ∃ parent name,
    p.parent? = some parent ∧ p.name? = some name ∧ p = parent.child name := by
  cases up : p.parent? with
  | none => exact absurd ((parent?_eq_none_iff p).1 up) h
  | some parent =>
    obtain ⟨name, rfl⟩ := parent?_eq_some_iff.1 up
    exact ⟨parent, name, rfl, name?_child parent name, rfl⟩

theorem Canonical.join_name? (hp : p.Canonical) (h : p ≠ root) : ∃ parent name,
    p.parent? = some parent ∧ p.name? = some name ∧ parent.join name = p := by
  obtain ⟨parent, name, up, last, rfl⟩ := exists_child h
  have isName : IsName name := hp name (by simp)
  exact ⟨parent, name, up, last, join_name parent isName⟩

/-- A text behind a separator is followed from where the text before it leads. -/
theorem parse_append (text other : String) : Path.parse (text ++ "/" ++ other) =
    ⟨(pieces other.toList).foldl (follow 0) (Path.parse text).segments⟩ := by
  have cut : pieces (text ++ "/" ++ other).toList = pieces text.toList ++ pieces other.toList := by
    rw [String.toList_append, String.toList_append, List.append_assoc]
    exact Text.split_append '/' text.toList other.toList
  rw [Path.parse, join, cut, List.foldl_append]
  rfl

theorem normalize_idem (text : String) : normalize (normalize text) = normalize text :=
  congrArg Path.toString (parse_normalize text)

theorem normalize_append (text other : String) :
    normalize (text ++ "/" ++ other) = normalize (normalize text ++ "/" ++ other) := by
  rw [normalize, normalize, parse_append, parse_append, parse_normalize]

theorem head?_toString (p : Path) : p.toString.toList.head? = some '/' := by
  by_cases h : p = root
  · subst h
    rfl
  · rw [toList_toString h]
    cases hs : p.segments with
    | nil => exact absurd (congrArg Path.mk hs) h
    | cons s rest => simp [written]

theorem Canonical.getLast?_toString (hp : p.Canonical) :
    p.toString.toList.getLast? = some '/' ↔ p = root := by
  constructor
  · intro slash
    by_contra h
    obtain ⟨parent, name, -, -, rfl⟩ := exists_child h
    obtain ⟨some, -, -, noSlash⟩ := hp name (by simp)
    obtain ⟨front, last, hlast⟩ := (List.eq_nil_or_concat name.toList).resolve_left some
    have text : (parent.child name).toString.toList =
        written parent.segments ++ '/' :: front ++ [last] := by
      rw [toList_toString h, child_segments, written, List.flatMap_append]
      simp [written, hlast]
    rw [text, List.getLast?_concat, Option.some.injEq] at slash
    apply noSlash
    rw [hlast, slash]
    simp
  · rintro rfl
    rfl

/-- Reading a text gives a canonical path, and the operations keep paths canonical. A canonical
path is the one that its text names, and below the root its name joined to its parent. So a normal
form is that of itself, has a separator in front and, but for the root, none at the end; two texts
have one normal form where they name one path; and a text may be brought into normal form before
another is put behind it. -/
theorem canonical_laws :
    (∀ text, (Path.parse text).Canonical) ∧
    (∀ p : Path, p.Canonical →
      (∀ text, (p.join text).Canonical) ∧ (∀ q : Path, q.Canonical → (p.resolve q).Canonical) ∧
        (∀ parent, p.parent? = some parent → parent.Canonical) ∧
        Path.parse p.toString = p ∧
        (p ≠ root → ∃ parent name,
          p.parent? = some parent ∧ p.name? = some name ∧ parent.join name = p)) ∧
    (∀ text, normalize (normalize text) = normalize text ∧
      (normalize text).toList.head? = some '/' ∧
      ((normalize text).toList.getLast? = some '/' ↔ normalize text = "/")) ∧
    (∀ text other, normalize text = normalize other ↔ Path.parse text = Path.parse other) ∧
    ∀ text other,
      normalize (text ++ "/" ++ other) = normalize (normalize text ++ "/" ++ other) := by
  refine ⟨canonical_parse, fun p hp => ⟨hp.join, fun q => hp.resolve, fun _ => hp.parent,
    parse_toString hp, hp.join_name?⟩, fun text => ⟨normalize_idem text, head?_toString _, ?_⟩,
    fun _ _ => normalize_eq_iff, normalize_append⟩
  rw [normalize, (canonical_parse text).getLast?_toString]
  constructor
  · intro atRoot
    rw [atRoot]
    rfl
  · exact fun same => toString_injective (canonical_parse text) canonical_root same

/-- A name may begin with dots, and what is put behind it may climb back. -/
theorem canonical_laws_dotted :
    let p : Path := ⟨["chunks", "..ab"]⟩
    p.Canonical ∧ p ≠ root ∧ (p.join "../x/../../y").Canonical ∧ Path.parse p.toString = p ∧
      (∃ parent name, p.parent? = some parent ∧ p.name? = some name ∧ parent.join name = p) ∧
      normalize "chunks/./..ab//../../.." = "/" ∧
      normalize ("chunks/./..ab//" ++ "/" ++ "../../..") =
        normalize (normalize "chunks/./..ab//" ++ "/" ++ "../../..") := by
  intro p
  have canonical : p.Canonical := by
    intro s hs
    have either : s = "chunks" ∨ s = "..ab" := by simpa [p] using hs
    rcases either with rfl | rfl <;> (unfold IsName; decide)
  have below : p ≠ root := by decide
  obtain ⟨-, paths, -, -, append⟩ := canonical_laws
  obtain ⟨joined, -, -, back, child⟩ := paths p canonical
  exact ⟨canonical, below, joined _, back, child below, by decide +kernel, append _ _⟩

end Path

end ChunkStore

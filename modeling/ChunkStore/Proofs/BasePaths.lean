import ChunkStore.Json.Schema
import ChunkStore.Proofs.CanonicalPaths
import ChunkStore.Proofs.WrittenValues

/-!
# Paths below a base

A text that is joined to a path is followed from the end of the path, and `..` stops there. So
joining a text is the same as resolving the path that the text names, and what is joined lies
below the path.

A path that is given as data may hold any segments. Its text, behind that of a base, is followed
by the next reader from the root, and nothing stops it at the end of the base: it takes away as
many segments of the base as its pieces climb. Only a path whose pieces do not climb stays below
every base.
-/

namespace ChunkStore

theorem Json.list?_map {α : Type} {take : Document → Option α} {write : α → Json String}
    (back : ∀ a, take (document (write a)) = some a) (items : List α) :
    list? take (document (.array (items.map write))) = some items := by
  have all : (items.map fun a => document (write a)).mapM take = some items := by
    induction items with
    | nil => rfl
    | cons a items ih => simp [back a, ih]
  rw [document, documentItems_eq, List.map_map]
  exact all

namespace Path

open Json

variable {p : Path}

/-! ## Joining -/

/-- Above a floor that is raised by a base, the base makes no difference. -/
theorem follow_raised (base : List String) (floor : Nat) (segments : List String)
    (piece : List Char) :
    follow (base.length + floor) (base ++ segments) piece =
      base ++ follow floor segments piece := by
  unfold follow
  split
  · rfl
  · rfl
  · have raised : base.length + floor < (base ++ segments).length ↔ floor < segments.length := by
      rw [List.length_append]
      omega
    by_cases up : floor < segments.length
    · have some : segments ≠ [] := List.ne_nil_of_length_pos (Nat.zero_lt_of_lt up)
      rw [if_pos up, if_pos (raised.2 up), List.dropLast_append_of_ne_nil some]
    · rw [if_neg up, if_neg (mt raised.1 up)]
  · exact List.append_assoc ..

theorem foldl_follow_raised (base segments : List String) (trail : List (List Char)) :
    trail.foldl (follow base.length) (base ++ segments) =
      base ++ trail.foldl (follow 0) segments := by
  induction trail generalizing segments with
  | nil => rfl
  | cons piece trail ih =>
    have step : follow base.length (base ++ segments) piece = base ++ follow 0 segments piece :=
      follow_raised base 0 segments piece
    rw [List.foldl_cons, List.foldl_cons, step, ih]

theorem join_eq_resolve (p : Path) (text : String) : p.join text = p.resolve (.parse text) := by
  have followed := foldl_follow_raised p.segments [] (pieces text.toList)
  rw [List.append_nil] at followed
  exact congrArg Path.mk followed

/-- Joining a text is resolving the path that it names, so the result lies below the path to
which the text is joined. -/
theorem join_resolves (p : Path) (text : String) :
    p.join text = p.resolve (.parse text) ∧ p.segments <+: (p.join text).segments := by
  have same := join_eq_resolve p text
  constructor
  · exact same
  · rw [same]
    exact prefix_resolve p _

/-! ## Reading the text of any path -/

/-- The pieces of a path's text. A segment that is no name may give several, or one that is no
name either. -/
def trail (p : Path) : List (List Char) := p.segments.flatMap fun s => pieces s.toList

theorem pieces_written (front : List Char) (segments : List String) :
    pieces (front ++ written segments) =
      pieces front ++ segments.flatMap fun s => pieces s.toList := by
  induction segments generalizing front with
  | nil => simp [written]
  | cons s segments ih =>
    have cut : pieces (front ++ written (s :: segments)) =
        pieces front ++ pieces (s.toList ++ written segments) := by
      simp only [written, List.flatMap_cons, List.cons_append]
      exact Text.split_append '/' front _
    rw [cut, ih, List.flatMap_cons]

theorem parse_toString_eq (p : Path) : Path.parse p.toString = ⟨p.trail.foldl (follow 0) []⟩ := by
  by_cases h : p = root
  · subst h
    rfl
  · have cut : pieces p.toString.toList = [] :: p.trail := by
      rw [toList_toString h]
      exact pieces_written [] p.segments
    rw [Path.parse, join, cut, List.foldl_cons]
    rfl

/-- How far the pieces of a text lead up from where they are followed, at most. -/
def rise : List (List Char) → Nat
  | [] => 0
  | [] :: rest => rise rest
  | ['.'] :: rest => rise rest
  | ['.', '.'] :: rest => rise rest + 1
  | _ :: rest => rise rest - 1

@[simp] theorem follow_up (base : List String) : follow 0 base ['.', '.'] = base.dropLast := by
  cases base <;> simp [follow]

/-- Pieces take away as many segments as they lead up, and put behind the others what they name
where there are none. -/
theorem foldl_follow_eq (base : List String) (trail : List (List Char)) :
    trail.foldl (follow 0) base =
      base.take (base.length - rise trail) ++ trail.foldl (follow 0) [] := by
  induction trail using rise.induct generalizing base with
  | case1 => simp [rise]
  | case2 rest ih => exact ih base
  | case3 rest ih => exact ih base
  | case4 rest ih =>
    have taken : base.dropLast.take (base.dropLast.length - rise rest) =
        base.take (base.length - (rise rest + 1)) := by
      rw [List.length_dropLast, List.dropLast_eq_take, List.take_take]
      congr 1
      omega
    rw [List.foldl_cons, List.foldl_cons, follow_up, follow_up, ih, taken, rise]
    rfl
  | case5 piece rest stays dot up ih =>
    have down (base : List String) : follow 0 base piece = base ++ [String.ofList piece] := by
      rw [follow]
      · exact stays
      · exact dot
      · exact up
    -- The name itself is the first to be taken away.
    have kept : base.take (base.length + 1 - rise rest) =
        base.take (base.length - (rise rest - 1)) := by
      rw [List.take_eq_take_iff]
      omega
    have name : base.length + 1 - rise rest - base.length = 1 - rise rest := by omega
    rw [List.foldl_cons, List.foldl_cons, down, down, ih, ih ([] ++ _), rise, List.take_append,
      List.append_assoc]
    · simp [kept, name]
    · exact stays
    · exact dot
    · exact up

/-- How many segments of a base a path takes away when it is read from its text behind that of
the base, at most. -/
def climb (p : Path) : Nat := rise p.trail

theorem trail_resolve (p q : Path) : (p.resolve q).trail = p.trail ++ q.trail :=
  List.flatMap_append ..

theorem Canonical.trail (h : p.Canonical) : p.trail = p.segments.map String.toList := by
  have alone : ∀ s ∈ p.segments, pieces s.toList = [s.toList] :=
    fun s hs => Text.split_of_not_mem (h s hs).2.2.2
  rw [Path.trail, List.map_eq_flatMap, List.flatMap_def, List.flatMap_def,
    List.map_congr_left alone]

theorem Canonical.climb_eq_zero (h : p.Canonical) : p.climb = 0 := by
  have names (segments : List String) (h : ∀ s ∈ segments, IsName s) :
      rise (segments.map String.toList) = 0 := by
    induction segments with
    | nil => rfl
    | cons s rest ih =>
      have lower : rise (rest.map String.toList) = 0 := ih fun t ht => h t (by simp [ht])
      have name : IsName s := h s (by simp)
      rw [List.map_cons, rise, lower]
      · exact name.1
      · exact name.2.1
      · exact name.2.2.1
  rw [climb, h.trail]
  exact names p.segments h

theorem parse_toString_resolve {base : Path} (h : base.Canonical) (p : Path) :
    (Path.parse (base.resolve p).toString).segments =
      base.segments.take (base.segments.length - p.climb) ++ (Path.parse p.toString).segments := by
  have follows : base.trail.foldl (follow 0) [] = base.segments := by
    have read := parse_toString_eq base
    rw [parse_toString h] at read
    exact (congrArg segments read).symm
  rw [parse_toString_eq, parse_toString_eq, trail_resolve, List.foldl_append, follows]
  exact foldl_follow_eq base.segments p.trail

theorem climb_eq_zero_of_below
    (below : ∀ r, (Path.parse r).segments <+:
      (Path.parse ((Path.parse r).resolve p).toString).segments) : p.climb = 0 := by
  apply Nat.eq_zero_of_not_pos
  intro climbs
  -- A base of one segment is left altogether, so what is read begins with what `p` names.
  have first (name : String) (named : Path.parse name = ⟨[name]⟩) :
      (Path.parse p.toString).segments.head? = some name := by
    have up : [name].length - p.climb = 0 := by
      rw [List.length_singleton]
      exact Nat.sub_eq_zero_of_le climbs
    have start := below name
    rw [parse_toString_resolve (canonical_parse name), named, up, List.take_zero,
      List.nil_append] at start
    cases rest : (Path.parse p.toString).segments with
    | nil =>
      rw [rest] at start
      exact absurd (List.prefix_nil.1 start) (List.cons_ne_nil _ _)
    | cons s others =>
      rw [rest] at start
      rw [List.head?_cons, (List.cons_prefix_cons.1 start).1]
  have a := first "a" (by decide +kernel)
  have b := first "b" (by decide +kernel)
  rw [a] at b
  exact absurd b (by decide)

/-! ## Paths given as data -/

theorem ofJson?_toJson (p : Path) : ofJson? (document p.toJson) = some p := by
  have segments : list? text? (document (.array (p.segments.map .string))) = some p.segments :=
    list?_map (fun _ => rfl) p.segments
  rw [document] at segments
  simp [toJson, document, documentMembers, ofJson?, record?, required, segments]

theorem read_toJson (p : Path) : (Json.read? p.toJson.text).bind ofJson? = some p := by
  have formed : Formed p.toJson := by
    simp only [toJson, formed_object_iff, List.forall_mem_singleton]
    apply Formed.array
    simp
  rw [read?_text formed]
  exact p.ofJson?_toJson

/-- Any path can be given as data. What is read from its text behind that of a base is the base
without as many segments as the path climbs, and behind it what the text of the path alone
names. So a path stays below every base if and only if it does not climb, which no path in normal
form does. -/
theorem given_paths_below (p : Path) :
    (∃ text, (Json.read? text).bind ofJson? = some p) ∧
      (∀ r, (Path.parse ((Path.parse r).resolve p).toString).segments =
        (Path.parse r).segments.take ((Path.parse r).segments.length - p.climb) ++
          (Path.parse p.toString).segments) ∧
      ((∀ r, (Path.parse r).segments <+:
        (Path.parse ((Path.parse r).resolve p).toString).segments) ↔ p.climb = 0) ∧
      (p.Canonical → p.climb = 0) := by
  have named (r : String) := parse_toString_resolve (canonical_parse r) p
  constructor
  · exact ⟨p.toJson.text, p.read_toJson⟩
  constructor
  · exact named
  constructor
  · constructor
    · exact climb_eq_zero_of_below
    · intro level r
      rw [named r, level, Nat.sub_zero, List.take_length]
      exact List.prefix_append ..
  · exact Canonical.climb_eq_zero

/-- Segments that are no names, but do not climb. -/
theorem given_paths_below_level :
    let p : Path := ⟨["a/..", "b"]⟩
    (Json.read? "\x7b\"segments\":[\"a/..\",\"b\"]\x7d").bind ofJson? = some p ∧
      p.climb = 0 ∧ (Path.parse ((Path.parse "/r").resolve p).toString).segments = ["r", "b"] ∧
      ∀ r, (Path.parse r).segments <+:
        (Path.parse ((Path.parse r).resolve p).toString).segments := by
  intro p
  have given : (Json.read? "\x7b\"segments\":[\"a/..\",\"b\"]\x7d").bind ofJson? = some p := by
    decide +kernel
  have level : p.climb = 0 := by decide +kernel
  have below := (given_paths_below p).2.2.1.2 level
  exact ⟨given, level, by decide +kernel, below⟩

/-- A path that is given as data leaves the base under which it is resolved. -/
theorem given_path_escapes :
    let p : Path := ⟨["..", "..", "etc"]⟩
    (Json.read? "\x7b\"segments\":[\"..\",\"..\",\"etc\"]\x7d").bind ofJson? = some p ∧
      ((Path.parse "/backups/repo").resolve p).toString = "/backups/repo/../../etc" ∧
      Path.parse "/backups/repo/../../etc" = ⟨["etc"]⟩ ∧
      ¬(Path.parse "/backups/repo").segments <+:
        (Path.parse ((Path.parse "/backups/repo").resolve p).toString).segments := by
  decide +kernel

end Path

end ChunkStore

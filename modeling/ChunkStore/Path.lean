import ChunkStore.Text.Split

/-!
# Storage paths

A path is a list of segments below a root. Texts are read with `Path.parse`, which
brings them into normal form; `toString` writes a path with a leading separator.
Segments may also be given as data, in which case nothing checks them.
-/

namespace ChunkStore

structure Path where
  segments : List String
  deriving Repr, DecidableEq, Hashable

namespace Path

def root : Path := ⟨[]⟩

def pieces (cs : List Char) : List (List Char) := Text.split '/' cs

/-- Follows one piece of a text from `segments`. Empty pieces and `.` stay, `..`
goes up but leaves the first `floor` segments in place, and a name goes down. -/
def follow (floor : Nat) (segments : List String) : List Char → List String
  | [] => segments
  | ['.'] => segments
  | ['.', '.'] => if floor < segments.length then segments.dropLast else segments
  | name => segments ++ [String.ofList name]

/-- Appends `name`, which may hold separators; `..` never climbs above this path. -/
def join (p : Path) (name : String) : Path :=
  ⟨(pieces name.toList).foldl (follow p.segments.length) p.segments⟩

def parse (text : String) : Path := root.join text

def resolve (p q : Path) : Path := ⟨p.segments ++ q.segments⟩

def parent? (p : Path) : Option Path :=
  if p.segments.isEmpty then none else some ⟨p.segments.dropLast⟩

def name? (p : Path) : Option String := p.segments.getLast?

def isRoot (p : Path) : Bool := p.segments.isEmpty

/-- The paths strictly above `p`, the root first. -/
def ancestors (p : Path) : List Path :=
  (List.range p.segments.length).map fun n => ⟨p.segments.take n⟩

/-- `p` is `q` or lies below it. -/
def isWithin (p q : Path) : Bool := q.segments.isPrefixOf p.segments

protected def toString (p : Path) : String :=
  if p.segments.isEmpty then "/" else String.join (p.segments.map ("/" ++ ·))

instance : ToString Path := ⟨Path.toString⟩

/-- Paths are ordered segment by segment, so that the children of a folder come in
the order of their names. -/
instance : Ord Path := ⟨fun p q => compare p.segments q.segments⟩

theorem compare_def (p q : Path) : compare p q = compare p.segments q.segments := rfl

instance : Std.TransOrd Path where
  eq_swap {p q} := by
    simp only [compare_def]
    exact Std.OrientedCmp.eq_swap
  isLE_trans {p q r} := by
    simp only [compare_def]
    exact Std.TransCmp.isLE_trans

instance : Std.LawfulEqOrd Path where
  compare_self {p} := by
    simp only [compare_def]
    exact Std.ReflCmp.compare_self
  eq_of_compare {p q} h := by
    have same : p.segments = q.segments := Std.LawfulEqCmp.eq_of_compare h
    cases p
    cases q
    cases same
    rfl

@[simp] theorem parse_empty : parse "" = root := by
  simp [parse, join, pieces, Text.split, follow]

@[simp] theorem resolve_root (p : Path) : p.resolve root = p := by
  simp [resolve, root]

@[simp] theorem root_resolve (p : Path) : root.resolve p = p := by
  simp [resolve, root]

theorem parent?_eq_none_iff (p : Path) : p.parent? = none ↔ p = root := by
  cases p with
  | mk s => cases s <;> simp [parent?, root]

theorem isRoot_iff (p : Path) : p.isRoot = true ↔ p = root := by
  cases p with
  | mk s => cases s <;> simp [isRoot, root]

end Path

/-- The text of a path in normal form: a leading separator, none at the end except
for the root, and neither empty nor dot segments. -/
def normalize (text : String) : String := (Path.parse text).toString

end ChunkStore

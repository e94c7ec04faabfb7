/-!
# Splitting

The parts of a text between the places where a mark stands.
-/

namespace ChunkStore.Text

/-- The parts between the marks, empty ones included. -/
def split (mark : Char) : List Char → List (List Char)
  | [] => [[]]
  | c :: cs =>
    if c = mark then [] :: split mark cs
    else
      match split mark cs with
      | [] => [[c]]
      | part :: rest => (c :: part) :: rest

theorem split_ne_nil (mark : Char) (cs : List Char) : split mark cs ≠ [] := by
  induction cs with
  | nil => simp [split]
  | cons c cs ih =>
    rw [split]
    split
    · simp
    · split <;> simp

end ChunkStore.Text

import ChunkStore.Text.Utf8

/-!
# Text with a byte order mark

Texts of unknown origin. A mark at the start tells how the bytes are to be read and is
no part of the text; without one they are read as UTF-8. Whatever cannot be read shows
as the replacement character.
-/

namespace ChunkStore.Text

/-- The code units of two bytes each; an odd byte at the end belongs to none. -/
def unitsOf (bigEndian : Bool) : Bytes → List (Option Nat)
  | a :: b :: rest =>
    let (high, low) := if bigEndian then (a, b) else (b, a)
    some (high.toNat * 256 + low.toNat) :: unitsOf bigEndian rest
  | [_] => [none]
  | [] => []

def charsOfUnits : List (Option Nat) → List Char
  | some u :: some v :: rest =>
    if 0xD800 ≤ u ∧ u ≤ 0xDBFF ∧ 0xDC00 ≤ v ∧ v ≤ 0xDFFF then
      Char.ofNat (0x10000 + (u - 0xD800) * 0x400 + (v - 0xDC00)) :: charsOfUnits rest
    else
      Char.ofNat (if 0xD800 ≤ u ∧ u ≤ 0xDFFF then 0xFFFD else u) :: charsOfUnits (some v :: rest)
  | some u :: rest =>
    Char.ofNat (if 0xD800 ≤ u ∧ u ≤ 0xDFFF then 0xFFFD else u) :: charsOfUnits rest
  | none :: rest => Char.ofNat 0xFFFD :: charsOfUnits rest
  | [] => []

def ofMarked : Bytes → String
  | 0xEF :: 0xBB :: 0xBF :: rest => ofBytesLossy rest
  | 0xFF :: 0xFE :: rest => String.ofList (charsOfUnits (unitsOf false rest))
  | 0xFE :: 0xFF :: rest => String.ofList (charsOfUnits (unitsOf true rest))
  | bs => ofBytesLossy bs

end ChunkStore.Text

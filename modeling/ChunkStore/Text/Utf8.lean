/-!
# Text and bytes

UTF-8 as a total reading of bytes. A reader sees characters, and one broken part
for each longest run of bytes that begins a character without completing it, or
that begins none. `bytes` writes a text, `ofBytes?` reads one that has no broken
part, and `ofBytesLossy` shows every broken part as the replacement character.
-/

namespace ChunkStore

abbrev Bytes := List UInt8

namespace Text

inductive Glyph where
  | char (c : Char)
  | broken
  deriving Repr, DecidableEq

def bytes (s : String) : Bytes := s.toByteArray.data.toList

/-- A character of which some bytes are still owed: the bits read so far, and the
least and greatest byte that may come next. -/
structure Unfinished where
  bits : Nat
  owed : Nat
  low : Nat := 0x80
  high : Nat := 0xBF
  deriving Repr, DecidableEq

inductive Opening where
  | whole (g : Glyph)
  | more (rest : Unfinished)
  deriving Repr, DecidableEq

/-- Surrogates, overlong forms and values above 0x10FFFF are excluded by the range
allowed for the second byte. -/
def opening (b : Nat) : Opening :=
  if b < 0x80 then .whole (.char (Char.ofNat b))
  else if b < 0xC2 then .whole .broken
  else if b < 0xE0 then .more ⟨b - 0xC0, 1, 0x80, 0xBF⟩
  else if b = 0xE0 then .more ⟨0, 2, 0xA0, 0xBF⟩
  else if b = 0xED then .more ⟨0xD, 2, 0x80, 0x9F⟩
  else if b < 0xF0 then .more ⟨b - 0xE0, 2, 0x80, 0xBF⟩
  else if b = 0xF0 then .more ⟨0, 3, 0x90, 0xBF⟩
  else if b < 0xF4 then .more ⟨b - 0xF0, 3, 0x80, 0xBF⟩
  else if b = 0xF4 then .more ⟨4, 3, 0x80, 0x8F⟩
  else .whole .broken

/-- Reads `bs` after the glyphs `seen`, which are held in reverse. -/
def glyphsFrom (seen : List Glyph) : Option Unfinished → Bytes → List Glyph
  | none, [] => seen.reverse
  | some _, [] => (.broken :: seen).reverse
  | none, b :: bs =>
    match opening b.toNat with
    | .whole g => glyphsFrom (g :: seen) none bs
    | .more u => glyphsFrom seen (some u) bs
  | some u, b :: bs =>
    if u.low ≤ b.toNat ∧ b.toNat ≤ u.high then
      let bits := u.bits * 64 + b.toNat % 64
      if u.owed ≤ 1 then glyphsFrom (.char (Char.ofNat bits) :: seen) none bs
      else glyphsFrom seen (some ⟨bits, u.owed - 1, 0x80, 0xBF⟩) bs
    else
      match opening b.toNat with
      | .whole g => glyphsFrom (g :: .broken :: seen) none bs
      | .more v => glyphsFrom (.broken :: seen) (some v) bs

def glyphs (bs : Bytes) : List Glyph := glyphsFrom [] none bs

def glyphsOf (s : String) : List Glyph := s.toList.map .char

def Glyph.char? : Glyph → Option Char
  | .char c => some c
  | .broken => none

def ofBytes? (bs : Bytes) : Option String :=
  ((glyphs bs).mapM Glyph.char?).map String.ofList

/-- The text written as `bs`, with U+FFFD for every broken part. -/
def ofBytesLossy (bs : Bytes) : String :=
  String.ofList ((glyphs bs).map fun g => g.char?.getD (Char.ofNat 0xFFFD))

end Text

end ChunkStore

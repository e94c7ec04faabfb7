/-!
# Rounding

Quotients rounded to whole numbers and to 53 significant bits. In both a value
halfway between its two neighbours goes to the even one. Quotients of positive
numbers in the range of normal doubles are covered; nothing here overflows.
-/

namespace ChunkStore.Numeric

structure Ratio where
  num : Nat
  den : Nat
  deriving Repr, DecidableEq

/-- `num / den` rounded to the nearest whole number, a half to the even one. -/
def roundDiv (num den : Nat) : Nat :=
  let q := num / den
  let twice := 2 * (num % den)
  if twice < den then q
  else if den < twice then q + 1
  else q + q % 2

/-- The exponent of the power of two at or below `num / den`, shifted by
`den.log2 + 1` so that it is never negative. -/
def magnitude (num den : Nat) : Nat :=
  if num <<< den.log2 < den <<< num.log2 then num.log2 else num.log2 + 1

/-- The least whole number too great for a double: halfway between the greatest double
and the power of two above it. -/
def tooGreat : Nat := (1 <<< 1024) - (1 <<< 970)

namespace Ratio

def ofNat (n : Nat) : Ratio := ⟨n, 1⟩

def div (a b : Ratio) : Ratio := ⟨a.num * b.den, a.den * b.num⟩

def mul (a b : Ratio) : Ratio := ⟨a.num * b.num, a.den * b.den⟩

def round (a : Ratio) : Nat := roundDiv a.num a.den

def toDouble (a : Ratio) : Ratio :=
  if a.num = 0 then ⟨0, 1⟩
  else
    let up := 53 + a.den.log2
    let down := magnitude a.num a.den
    let significand := roundDiv (a.num <<< (up - down)) (a.den <<< (down - up))
    ⟨significand <<< (down - up), 1 <<< (up - down)⟩

end Ratio

theorem roundDiv_zero (den : Nat) (h : 0 < den) : roundDiv 0 den = 0 := by
  simp [roundDiv, h]

end ChunkStore.Numeric

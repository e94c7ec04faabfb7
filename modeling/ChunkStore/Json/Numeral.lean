import ChunkStore.Numeric.Rounding
import ChunkStore.Text.Numeral

/-!
# Numbers in JSON

The parts of a number as it is written, the whole number that it names if it is
written as one, and whether its value is in the range of doubles.
-/

namespace ChunkStore.Json

structure Numeral where
  negative : Bool := false
  whole : List Char
  fraction : Option (List Char) := none
  exponent : Option (Bool × List Char) := none
  deriving Repr, DecidableEq

namespace Numeral

def ofNat (n : Nat) : Numeral := { whole := Nat.toDigits 10 n }

def digits? (cs : List Char) : Option (List Char × List Char) :=
  let run := cs.takeWhile Text.isDigit
  if run.isEmpty then none else some (run, cs.dropWhile Text.isDigit)

def exponent? : List Char → Option (Option (Bool × List Char))
  | [] => some none
  | e :: cs =>
    if e = 'e' ∨ e = 'E' then
      let (negative, cs) :=
        match cs with
        | '-' :: rest => (true, rest)
        | '+' :: rest => (false, rest)
        | cs => (false, cs)
      match digits? cs with
      | some (run, []) => some (some (negative, run))
      | _ => none
    else none

/-- Reads a number: a leading zero stands alone, and digits follow a point. -/
def read? (cs : List Char) : Option Numeral := do
  let (negative, cs) :=
    match cs with
    | '-' :: rest => (true, rest)
    | cs => (false, cs)
  let (whole, cs) ← digits? cs
  if whole.head? = some '0' ∧ whole.length ≠ 1 then none
  else
    match cs with
    | '.' :: cs =>
      let (fraction, cs) ← digits? cs
      return { negative, whole, fraction := some fraction, exponent := ← exponent? cs }
    | cs => return { negative, whole, exponent := ← exponent? cs }

def word? (n : Numeral) : Option Nat :=
  if n.negative ∨ n.fraction.isSome ∨ n.exponent.isSome then none else Text.word? n.whole

/-- Adds digits before the point to a significand of 64 bits; digits that do not fit
only raise the exponent. -/
def takeWhole : List Char → (significand exponent : Nat) → Nat × Nat
  | [], s, e => (s, e)
  | c :: cs, s, e =>
    let s' := s * 10 + Text.hexValue c
    if s' < Text.wordBound then takeWhole cs s' e else (s, e + (c :: cs).length)

/-- Adds digits after the point; digits that do not fit are dropped. -/
def takeFraction : List Char → (significand : Nat) → (exponent : Int) → Nat × Int
  | [], s, e => (s, e)
  | c :: cs, s, e =>
    let s' := s * 10 + Text.hexValue c
    if s' < Text.wordBound then takeFraction cs s' (e - 1) else (s, e)

/-- The product of the significand and the power of ten, both rounded to doubles, does
not overflow. -/
def isFinite (n : Numeral) : Bool :=
  let (significand, raised) := takeWhole n.whole 0 0
  let (significand, scale) := takeFraction (n.fraction.getD []) significand raised
  let power : Int :=
    match n.exponent with
    | some (true, run) => scale - Text.value 10 run
    | some (false, run) => scale + Text.value 10 run
    | none => scale
  if significand = 0 ∨ power < 0 then true
  else if 308 < power then false
  else
    let value := (Numeric.Ratio.ofNat significand).toDouble.mul
      (Numeric.Ratio.ofNat (Nat.pow 10 power.toNat)).toDouble
    value.num < Numeric.tooGreat * value.den

def render (n : Numeral) : List Char :=
  (if n.negative then ['-'] else []) ++ n.whole ++
    (match n.fraction with
      | some run => '.' :: run
      | none => []) ++
    (match n.exponent with
      | some (true, run) => 'e' :: '-' :: run
      | some (false, run) => 'e' :: run
      | none => [])

end Numeral

end ChunkStore.Json

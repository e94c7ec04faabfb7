import ChunkStore.Numeric.Rounding
import ChunkStore.Text.Numeral
import ChunkStore.Toml

/-!
# Numbers, truth values and dates in TOML

The value of a word, which is a run of letters, digits, signs, points and colons; a
date and the time after it, parted by one space, are one word. Digits of a number may
be parted by single underscores. Whole numbers have 64 bits.
-/

namespace ChunkStore.Toml.Scalar

/-- The digits of a run in which underscores stand between digits only. -/
def digits? (isDigit : Char → Bool) : List Char → Option (List Char)
  | [] => none
  | [c] => if isDigit c then some [c] else none
  | c :: '_' :: cs => if isDigit c then (digits? isDigit cs).map (c :: ·) else none
  | c :: cs => if isDigit c then (digits? isDigit cs).map (c :: ·) else none

/-- The sign of a number, true for minus, and what follows it. -/
def sign : List Char → Bool × List Char
  | '-' :: cs => (true, cs)
  | '+' :: cs => (false, cs)
  | cs => (false, cs)

/-- The decimal digits of a whole number, of which the first is zero only if it is the
only one. -/
def decimal? (cs : List Char) : Option (List Char) := do
  let run ← digits? Text.isDigit cs
  if run.head? = some '0' ∧ cs.length ≠ 1 then none else some run

def inRange (n : Int) : Bool := -0x8000000000000000 ≤ n && n < 0x8000000000000000

def isOctalDigit (c : Char) : Bool := '0' ≤ c && c ≤ '7'

def isBinaryDigit (c : Char) : Bool := c == '0' || c == '1'

def integer? (cs : List Char) : Option Int := do
  let n : Int ←
    match cs with
    | '0' :: 'x' :: cs => (digits? Text.isHexDigit cs).map fun run => (Text.value 16 run : Int)
    | '0' :: 'o' :: cs => (digits? isOctalDigit cs).map fun run => (Text.value 8 run : Int)
    | '0' :: 'b' :: cs => (digits? isBinaryDigit cs).map fun run => (Text.value 2 run : Int)
    | cs =>
      let (negative, cs) := sign cs
      (decimal? cs).map fun run =>
        if negative then -(Text.value 10 run : Int) else Text.value 10 run
  if inRange n then some n else none

def splitAt (p : Char → Bool) (cs : List Char) : List Char × List Char :=
  (cs.takeWhile (!p ·), cs.dropWhile (!p ·))

def exponent? : List Char → Option Int
  | [] => some 0
  | _ :: cs => do
    let (negative, cs) := sign cs
    let n : Int := Text.value 10 (← digits? Text.isDigit cs)
    return if negative then -n else n

/-- The decimal `significand · 10 ^ exponent` does not round to a double. -/
def overflows (significand : Nat) (exponent : Int) : Bool :=
  let magnitude := (Nat.toDigits 10 significand).length + exponent
  if significand = 0 ∨ magnitude < 300 then false
  else if 310 < magnitude then true
  else if 0 ≤ exponent then Numeric.tooGreat ≤ significand * Nat.pow 10 exponent.toNat
  else Numeric.tooGreat * Nat.pow 10 (-exponent).toNat ≤ significand

/-- A number with a fraction or an exponent, or infinity, or no number. Of finite ones
too great for a double, those below zero are taken. -/
def isFloat (cs : List Char) : Bool :=
  let (negative, cs) := sign cs
  if cs = "inf".toList ∨ cs = "nan".toList then true
  else
    let (body, exponent) := splitAt (fun c => c == 'e' || c == 'E') cs
    let (whole, fraction) := splitAt (· == '.') body
    let value? := do
      let whole ← decimal? whole
      let fraction ←
        match fraction with
        | [] => if exponent.isEmpty then none else some []
        | _ :: run => digits? Text.isDigit run
      return (Text.value 10 (whole ++ fraction), (← exponent? exponent) - fraction.length)
    match value? with
    | some (significand, exponent) => negative || !overflows significand exponent
    | none => false

def fixed? (width : Nat) (cs : List Char) : Option Nat :=
  if cs.length = width ∧ cs.all Text.isDigit then some (Text.value 10 cs) else none

def isLeapYear (year : Nat) : Bool := year % 4 == 0 && (year % 100 != 0 || year % 400 == 0)

def daysIn (year month : Nat) : Nat :=
  if month = 2 then if isLeapYear year then 29 else 28
  else if month = 4 ∨ month = 6 ∨ month = 9 ∨ month = 11 then 30
  else 31

def isDay (cs : List Char) : Bool :=
  let day? := do
    return (← fixed? 4 (cs.take 4), ← fixed? 2 ((cs.drop 5).take 2), ← fixed? 2 (cs.drop 8))
  match day? with
  | some (year, month, day) =>
    cs[4]? == some '-' && cs[7]? == some '-' && 1 ≤ month && month ≤ 12 && 1 ≤ day &&
      day ≤ daysIn year month
  | none => false

def isClock (cs : List Char) : Bool :=
  match fixed? 2 (cs.take 2), fixed? 2 (cs.drop 3) with
  | some hour, some minute => cs[2]? == some ':' && hour ≤ 23 && minute ≤ 59
  | _, _ => false

/-- Seconds, with a fraction or without; the sixtieth is a leap second. -/
def isSecond (cs : List Char) : Bool :=
  let (second, fraction) := splitAt (· == '.') cs
  match fixed? 2 second with
  | some second =>
    second ≤ 60 && (fraction.isEmpty || (2 ≤ fraction.length && fraction.tail.all Text.isDigit))
  | none => false

def isTime (cs : List Char) : Bool :=
  isClock (cs.take 5) && cs[5]? == some ':' && isSecond (cs.drop 6)

def isZone (cs : List Char) : Bool :=
  cs == ['Z'] || cs == ['z'] ||
    ((cs.head? == some '+' || cs.head? == some '-') && isClock cs.tail)

def isDate (cs : List Char) : Bool :=
  isTime cs ||
    (isDay (cs.take 10) &&
      match cs.drop 10 with
      | [] => true
      | mark :: cs =>
        let (time, zone) := splitAt (fun c => c == 'Z' || c == 'z' || c == '+' || c == '-') cs
        (mark == 'T' || mark == 't' || mark == ' ') && isTime time &&
          (zone.isEmpty || isZone zone))

def read? (word : List Char) : Option Toml :=
  if word = "true".toList then some (.boolean true)
  else if word = "false".toList then some (.boolean false)
  else
    match integer? word with
    | some n => some (.integer n)
    | none =>
      if isFloat word then some (.float (String.ofList word))
      else if isDate word then some (.date (String.ofList word))
      else none

end ChunkStore.Toml.Scalar

/-!
# Numerals

Decimal and hexadecimal digits, and the whole numbers below 2^64 that a text of
digits names.
-/

namespace ChunkStore.Text

/-- One more than the greatest number of 64 bits. -/
def wordBound : Nat := 0x10000000000000000

def isDigit (c : Char) : Bool := '0' ≤ c && c ≤ '9'

def isHexDigit (c : Char) : Bool :=
  isDigit c || ('a' ≤ c && c ≤ 'f') || ('A' ≤ c && c ≤ 'F')

def hexValue (c : Char) : Nat :=
  if isDigit c then c.toNat - '0'.toNat
  else if 'a' ≤ c then c.toNat - 'a'.toNat + 10
  else c.toNat - 'A'.toNat + 10

def value (base : Nat) (digits : List Char) : Nat :=
  digits.foldl (fun n c => n * base + hexValue c) 0

def word? (digits : List Char) : Option Nat :=
  if digits.isEmpty || !digits.all isDigit then none
  else
    let n := value 10 digits
    if n < wordBound then some n else none

/-- A number of 64 bits with an optional plus sign in front. Leading zeros count
for nothing. -/
def signedWord? : List Char → Option Nat
  | '+' :: digits => word? digits
  | digits => word? digits

/-- The `width` lowest hexadecimal digits of `n`, in lower case. -/
def hex (width n : Nat) : List Char :=
  match width with
  | 0 => []
  | w + 1 => hex w (n / 16) ++ [(n % 16).digitChar]

end ChunkStore.Text

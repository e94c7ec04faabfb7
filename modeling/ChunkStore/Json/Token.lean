import ChunkStore.Json
import ChunkStore.Text.Utf8

/-!
# Tokens of JSON

A scanner that takes one glyph at a time. A string is scanned whether or not it is a
text: only its escapes and the absence of control characters are checked, and
whether it can be kept is decided from its pieces.
-/

namespace ChunkStore.Json

inductive Token where
  | openArray
  | closeArray
  | openObject
  | closeObject
  | colon
  | comma
  | null
  | bool (value : Bool)
  | number (value : Numeral)
  | string (text : Option String)
  deriving Repr, DecidableEq

/-- A part of a string: a character, a code unit given by an escape, or bytes of no
character. -/
inductive Piece where
  | char (c : Char)
  | unit (u : Nat)
  | broken
  deriving Repr, DecidableEq

def isHighSurrogate (u : Nat) : Bool := 0xD800 ≤ u && u ≤ 0xDBFF

def isLowSurrogate (u : Nat) : Bool := 0xDC00 ≤ u && u ≤ 0xDFFF

def charsFrom (seen : List Char) : List Piece → Option (List Char)
  | [] => some seen.reverse
  | .char c :: rest => charsFrom (c :: seen) rest
  | .broken :: _ => none
  | .unit u :: .unit v :: rest =>
    if isHighSurrogate u && isLowSurrogate v then
      charsFrom (Char.ofNat (0x10000 + (u - 0xD800) * 0x400 + (v - 0xDC00)) :: seen) rest
    else if isHighSurrogate u || isLowSurrogate u then none
    else charsFrom (Char.ofNat u :: seen) (.unit v :: rest)
  | .unit u :: rest =>
    if isHighSurrogate u || isLowSurrogate u then none
    else charsFrom (Char.ofNat u :: seen) rest

/-- The text of a string, if its code units pair up and all its bytes are read. -/
def textOf? (pieces : List Piece) : Option String := (charsFrom [] pieces).map String.ofList

/-- Where the scanner stands. Parts already read are in reverse. -/
inductive Scan where
  | between
  | word (letters : List Char)
  | numeral (chars : List Char)
  | within (pieces : List Piece)
  | escaped (pieces : List Piece)
  | code (pieces : List Piece) (digits : List Char)
  deriving Repr, DecidableEq

def isSpace (c : Char) : Bool := c == ' ' || c == '\t' || c == '\n' || c == '\r'

def isNumeralChar (c : Char) : Bool :=
  Text.isDigit c || c == '-' || c == '+' || c == '.' || c == 'e' || c == 'E'

def isLetter (c : Char) : Bool := 'a' ≤ c && c ≤ 'z'

def start (c : Char) : Option (Option Token × Scan) :=
  if isSpace c then some (none, .between)
  else if c = '[' then some (some .openArray, .between)
  else if c = ']' then some (some .closeArray, .between)
  else if c = '\x7b' then some (some .openObject, .between)
  else if c = '\x7d' then some (some .closeObject, .between)
  else if c = ':' then some (some .colon, .between)
  else if c = ',' then some (some .comma, .between)
  else if c = '"' then some (none, .within [])
  else if Text.isDigit c || c == '-' then some (none, .numeral [c])
  else if isLetter c then some (none, .word [c])
  else none

def wordToken? (letters : List Char) : Option Token :=
  if letters = "null".toList then some .null
  else if letters = "true".toList then some (.bool true)
  else if letters = "false".toList then some (.bool false)
  else none

def escapeOf? (c : Char) : Option Char :=
  if c = '"' ∨ c = '\\' ∨ c = '/' then some c
  else if c = 'b' then some (Char.ofNat 8)
  else if c = 'f' then some (Char.ofNat 12)
  else if c = 'n' then some '\n'
  else if c = 'r' then some '\r'
  else if c = 't' then some '\t'
  else none

def stepChar (c : Char) : Scan → Option (List Token × Scan)
  | .between => do
    let (token, scan) ← start c
    return (token.toList, scan)
  | .word letters =>
    if isLetter c then some ([], .word (c :: letters))
    else do
      let word ← wordToken? letters.reverse
      let (token, scan) ← start c
      return (word :: token.toList, scan)
  | .numeral chars =>
    if isNumeralChar c then some ([], .numeral (c :: chars))
    else do
      let n ← Numeral.read? chars.reverse
      let (token, scan) ← start c
      return (.number n :: token.toList, scan)
  | .within pieces =>
    if c = '"' then some ([.string (textOf? pieces.reverse)], .between)
    else if c = '\\' then some ([], .escaped pieces)
    else if c.toNat < 0x20 then none
    else some ([], .within (.char c :: pieces))
  | .escaped pieces =>
    if c = 'u' then some ([], .code pieces [])
    else (escapeOf? c).map fun e => ([], .within (.char e :: pieces))
  | .code pieces digits =>
    if !Text.isHexDigit c then none
    else if digits.length < 3 then some ([], .code pieces (c :: digits))
    else some ([], .within (.unit (Text.value 16 (c :: digits).reverse) :: pieces))

def step (g : Text.Glyph) (scan : Scan) : Option (List Token × Scan) :=
  match g, scan with
  | .char c, scan => stepChar c scan
  | .broken, .within pieces => some ([], .within (.broken :: pieces))
  | .broken, _ => none

def finish : Scan → Option (List Token)
  | .between => some []
  | .word letters => (wordToken? letters.reverse).map ([·])
  | .numeral chars => (Numeral.read? chars.reverse).map fun n => [.number n]
  | _ => none

def tokensFrom (seen : List Token) (scan : Scan) : List Text.Glyph → Option (List Token)
  | [] => (finish scan).map fun last => seen.reverse ++ last
  | g :: gs =>
    match step g scan with
    | some (tokens, scan) => tokensFrom (tokens.reverse ++ seen) scan gs
    | none => none

def tokens? (gs : List Text.Glyph) : Option (List Token) := tokensFrom [] .between gs

end ChunkStore.Json

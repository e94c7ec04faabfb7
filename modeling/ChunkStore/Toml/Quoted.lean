import ChunkStore.Text.Numeral

/-!
# Strings in TOML

The text that the written content of a string stands for. A basic string has escapes,
a literal string has none. Either may be a block, which may hold line breaks: one right
after the opening quotes is not part of the text, and a line break is read as a line
feed, however it is written.
-/

namespace ChunkStore.Toml.Quoted

def isPrintable (c : Char) : Bool :=
  c == '\t' || (0x20 ≤ c.toNat && c.toNat != 0x7F)

def isBlank (c : Char) : Bool := c == ' ' || c == '\t'

def withLineFeeds? : List Char → Option (List Char)
  | [] => some []
  | '\r' :: '\n' :: cs => (withLineFeeds? cs).map ('\n' :: ·)
  | c :: cs => if isPrintable c || c == '\n' then (withLineFeeds? cs).map (c :: ·) else none

def plain? (cs : List Char) : Option (List Char) := if cs.all isPrintable then some cs else none

def escapeOf? (c : Char) : Option Char :=
  if c = '"' ∨ c = '\\' then some c
  else if c = 'b' then some (Char.ofNat 8)
  else if c = 'f' then some (Char.ofNat 12)
  else if c = 'n' then some '\n'
  else if c = 'r' then some '\r'
  else if c = 't' then some '\t'
  else none

/-- The character of a code point in hexadecimal digits; surrogates are none. -/
def codePoint? (width : Nat) (digits : List Char) : Option Char :=
  if digits.length = width ∧ digits.all Text.isHexDigit then
    let n := Text.value 16 digits
    if n.isValidChar then some (Char.ofNat n) else none
  else none

/-- Resolves escapes. A backslash at the end of a line stands for nothing, together
with all blanks and line breaks that follow. -/
def unescape? : List Char → Option (List Char)
  | [] => some []
  | '\\' :: 'u' :: cs => do
    return (← codePoint? 4 (cs.take 4)) :: (← unescape? (cs.drop 4))
  | '\\' :: 'U' :: cs => do
    return (← codePoint? 8 (cs.take 8)) :: (← unescape? (cs.drop 8))
  | '\\' :: c :: cs =>
    if isBlank c || c == '\n' then
      if ((c :: cs).dropWhile isBlank).head? = some '\n' then
        unescape? (cs.dropWhile fun c => isBlank c || c == '\n')
      else none
    else do
      return (← escapeOf? c) :: (← unescape? cs)
  | c :: cs => (unescape? cs).map (c :: ·)
termination_by cs => cs.length
decreasing_by
  all_goals simp only [List.length_cons, List.length_drop]
  all_goals first
    | omega
    | exact Nat.lt_succ_of_le (Nat.le_succ_of_le (List.dropWhile_suffix _).length_le)

def afterBreak : List Char → List Char
  | '\n' :: cs => cs
  | '\r' :: '\n' :: cs => cs
  | cs => cs

def text? (quote : Char) (block : Bool) (content : List Char) : Option String := do
  let cs ← if block then withLineFeeds? (afterBreak content) else plain? content
  let cs ← if quote = '"' then unescape? cs else some cs
  return String.ofList cs

end ChunkStore.Toml.Quoted

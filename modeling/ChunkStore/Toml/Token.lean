import ChunkStore.Toml.Quoted
import ChunkStore.Toml.Scalar

/-!
# Tokens of TOML

A scanner that takes one character at a time. Keys and values are made of the same
words and strings; which of them a word is, is left to the reader of lines. Comments
are no tokens.
-/

namespace ChunkStore.Toml

inductive Token where
  | word (letters : List Char)
  | string (text : String) (block : Bool)
  | mark (c : Char)
  | blank
  | newline
  deriving Repr, DecidableEq

/-- Where the scanner stands. Characters already read are in reverse. -/
inductive Scan where
  | between
  | word (letters : List Char)
  | dated (letters : List Char)
  | comment
  /-- A carriage return, which only a line feed may follow. -/
  | returned
  | opened (quote : Char) (twice : Bool)
  | string (quote : Char) (content : List Char) (escaped : Bool)
  /-- A block, of which the last `run` characters are quotes. -/
  | block (quote : Char) (content : List Char) (escaped : Bool) (run : Nat)
  deriving Repr, DecidableEq

def isWordChar (c : Char) : Bool :=
  c.isAlphanum || c == '-' || c == '_' || c == '+' || c == '.' || c == ':'

def isMark (c : Char) : Bool :=
  c == '=' || c == ',' || c == '[' || c == ']' || c == '\x7b' || c == '\x7d'

def start (c : Char) : Option (Option Token × Scan) :=
  if c = '\n' then some (some .newline, .between)
  else if c = '\r' then some (none, .returned)
  else if Quoted.isBlank c then some (some .blank, .between)
  else if c = '#' then some (none, .comment)
  else if isMark c then some (some (.mark c), .between)
  else if c = '"' ∨ c = '\'' then some (none, .opened c false)
  else if isWordChar c then some (none, .word [c])
  else none

def Token.before (token : Token) (c : Char) : Option (List Token × Scan) := do
  let (next, scan) ← start c
  return (token :: next.toList, scan)

/-- A block whose content ends in quotes of which the last three close it. -/
def closeBlock (quote : Char) (content : List Char) (run : Nat) : Option Token :=
  (Quoted.text? quote true (List.replicate (run - 3) quote ++ content).reverse).map
    fun text => .string text true

def step (c : Char) : Scan → Option (List Token × Scan)
  | .between => do
    let (token, scan) ← start c
    return (token.toList, scan)
  | .word letters =>
    if isWordChar c then some ([], .word (c :: letters))
    else if c = ' ' ∧ Scalar.isDay letters.reverse then some ([], .dated letters)
    else (Token.word letters.reverse).before c
  | .dated letters =>
    if Text.isDigit c then some ([], .word (c :: ' ' :: letters))
    else do
      let (tokens, scan) ← Token.blank.before c
      return (.word letters.reverse :: tokens, scan)
  | .comment =>
    if c = '\n' ∨ c = '\r' then do
      let (token, scan) ← start c
      return (token.toList, scan)
    else if Quoted.isPrintable c then some ([], .comment)
    else none
  | .returned => if c = '\n' then some ([.newline], .between) else none
  | .opened quote false =>
    if c = quote then some ([], .opened quote true)
    else some ([], .string quote [c] (quote == '"' && c == '\\'))
  | .opened quote true =>
    if c = quote then some ([], .block quote [] false 0)
    else (Token.string "" false).before c
  | .string quote content true => some ([], .string quote (c :: content) false)
  | .string quote content false =>
    if c = quote then do
      let text ← Quoted.text? quote false content.reverse
      return ([.string text false], .between)
    else some ([], .string quote (c :: content) (quote == '"' && c == '\\'))
  | .block quote content true _ => some ([], .block quote (c :: content) false 0)
  | .block quote content false run =>
    if c = quote then
      if run < 4 then some ([], .block quote content false (run + 1))
      else do return ([← closeBlock quote content 5], .between)
    else if 3 ≤ run then do (← closeBlock quote content run).before c
    else
      some ([], .block quote (c :: (List.replicate run quote ++ content))
        (quote == '"' && c == '\\') 0)

/-- The token completed by the end of the document, which also ends a line. -/
def finish : Scan → Option (List Token)
  | .between | .comment => some [.newline]
  | .word letters | .dated letters => some [.word letters.reverse, .newline]
  | .opened _ true => some [.string "" false, .newline]
  | .block quote content false run =>
    if 3 ≤ run then do return [← closeBlock quote content run, .newline] else none
  | _ => none

def tokensFrom (seen : List Token) (scan : Scan) : List Char → Option (List Token)
  | [] => (finish scan).map fun last => seen.reverse ++ last
  | c :: cs =>
    match step c scan with
    | some (tokens, scan) => tokensFrom (tokens.reverse ++ seen) scan cs
    | none => none

def tokens? (cs : List Char) : Option (List Token) := tokensFrom [] .between cs

end ChunkStore.Toml

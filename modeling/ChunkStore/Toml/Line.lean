import ChunkStore.Toml.Table
import ChunkStore.Toml.Token

/-!
# Lines of TOML

A document is a sequence of headers and of values given to keys. They are read from
tokens by a machine with a stack of what is still open: a key that waits for its
value, and the arrays and inline tables around it.
-/

namespace ChunkStore.Toml

inductive Line where
  | table (key : Key)
  | element (key : Key)
  | assign (key : Key) (value : Toml)

inductive KeyPiece where
  | part (name : String)
  | point
  deriving Repr, DecidableEq

def isKeyChar (c : Char) : Bool := c.isAlphanum || c == '-' || c == '_'

/-- The pieces of a word in a key, after the letters `part`, which are in reverse. -/
def keyPiecesFrom (part : List Char) : List Char → Option (List KeyPiece)
  | [] => some (last part)
  | c :: cs =>
    if c = '.' then (keyPiecesFrom [] cs).map fun pieces => last part ++ .point :: pieces
    else if isKeyChar c then keyPiecesFrom (c :: part) cs
    else none
where
  last (part : List Char) : List KeyPiece :=
    if part.isEmpty then [] else [.part (String.ofList part.reverse)]

def keyPieces? (word : List Char) : Option (List KeyPiece) := keyPiecesFrom [] word

/-- A key has fewer parts than this, and a value is nested in fewer arrays and tables. -/
def depthBound : Nat := 80

def parts? : List KeyPiece → Option Key
  | [.part name] => some [name]
  | .part name :: .point :: pieces => (parts? pieces).map (name :: ·)
  | _ => none

def key? (pieces : List KeyPiece) : Option Key := do
  let key ← parts? pieces
  if key.length < depthBound then some key else none

inductive Frame where
  | slot (key : Key)
  /-- An array, its items in reverse. -/
  | array (items : List Toml)
  | table (members : Members)

inductive KeyPlace where
  | line
  | header
  | element
  | inline
  deriving Repr, DecidableEq

inductive Expect where
  | line
  | bracket
  /-- The rest of a key, of which the pieces are in reverse. -/
  | key (place : KeyPlace) (pieces : List KeyPiece)
  | closing (key : Key)
  | value
  | itemOrEnd
  | memberOrEnd
  | complete (value : Toml)
  | lineEnd

structure Reader where
  expect : Expect := .line
  stack : List Frame := []
  /-- The lines that are complete, in reverse. -/
  lines : List Line := []

namespace Reader

def nesting (stack : List Frame) : Nat :=
  stack.countP fun
    | .slot _ => false
    | _ => true

def push? (r : Reader) (expect : Expect) (frame : Frame) : Option Reader :=
  if nesting (frame :: r.stack) < depthBound then
    some { r with expect, stack := frame :: r.stack }
  else none

def open? (r : Reader) : Token → Option Reader
  | .word letters => (Scalar.read? letters).map fun v => { r with expect := .complete v }
  | .string text _ => some { r with expect := .complete (.string text) }
  | .mark c =>
    if c = '[' then r.push? .itemOrEnd (.array [])
    else if c = '\x7b' then r.push? .memberOrEnd (.table [])
    else none
  | _ => none

def feedKey (r : Reader) (place : KeyPlace) (pieces : List KeyPiece) : Token → Option Reader
  | .word letters => do
    return { r with expect := .key place ((← keyPieces? letters).reverse ++ pieces) }
  | .string text false => some { r with expect := .key place (.part text :: pieces) }
  | .mark c => do
    let key ← key? pieces.reverse
    match place with
    | .line | .inline =>
      if c = '=' then some { r with expect := .value, stack := .slot key :: r.stack } else none
    | .header =>
      if c = ']' then some { r with expect := .lineEnd, lines := .table key :: r.lines } else none
    | .element => if c = ']' then some { r with expect := .closing key } else none
  | _ => none

def feedComplete (r : Reader) (v : Toml) (token : Token) : Option Reader :=
  match r.stack, token with
  | [.slot key], .newline => some ⟨.line, [], .assign key v :: r.lines⟩
  | .array _ :: _, .newline => some r
  | .array items :: stack, .mark c =>
    if c = ',' then some { r with expect := .itemOrEnd, stack := .array (v :: items) :: stack }
    else if c = ']' then
      some { r with expect := .complete (.array (v :: items).reverse), stack }
    else none
  | .slot key :: .table members :: stack, .mark c => do
    let members ← assign v key members
    if c = ',' then some { r with expect := .key .inline [], stack := .table members :: stack }
    else if c = '\x7d' then
      some { r with expect := .complete (Node.table .header members).close, stack }
    else none
  | _, _ => none

/-- The reader after one more token. Blanks count only between two brackets. -/
def feed (r : Reader) (token : Token) : Option Reader :=
  match r.expect, token with
  | .bracket, .mark c =>
    if c = '[' then some { r with expect := .key .element [] } else none
  | .bracket, token =>
    if token = .blank then some { r with expect := .key .header [] }
    else r.feedKey .header [] token
  | .closing key, token =>
    if token = .mark ']' then some { r with expect := .lineEnd, lines := .element key :: r.lines }
    else none
  | _, .blank => some r
  | .line, .newline | .lineEnd, .newline => some { r with expect := .line }
  | .line, .mark c => if c = '[' then some { r with expect := .bracket } else none
  | .line, token => r.feedKey .line [] token
  | .key place pieces, token => r.feedKey place pieces token
  | .value, token => r.open? token
  | .itemOrEnd, .newline => some r
  | .itemOrEnd, token =>
    match r.stack with
    | .array items :: stack =>
      if token = .mark ']' then some { r with expect := .complete (.array items.reverse), stack }
      else r.open? token
    | _ => none
  | .memberOrEnd, token =>
    match r.stack with
    | .table _ :: stack =>
      if token = .mark '\x7d' then some { r with expect := .complete (.table []), stack }
      else r.feedKey .inline [] token
    | _ => none
  | .complete v, token => r.feedComplete v token
  | .lineEnd, _ => none

def result? (r : Reader) : Option (List Line) :=
  match r.expect, r.stack with
  | .line, [] => some r.lines.reverse
  | _, _ => none

end Reader

def lines? (tokens : List Token) : Option (List Line) := do
  (← tokens.foldlM Reader.feed {}).result?

end ChunkStore.Toml

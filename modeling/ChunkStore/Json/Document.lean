import ChunkStore.Json.Token

/-!
# Reading JSON

A document is put together from its tokens by a machine with a stack of the arrays
and objects that are still open, so that documents of any depth can be read. Objects
keep all their members in order, those that share a key included.
-/

namespace ChunkStore.Json

/-- A value as it is read: a string may be no text. -/
abbrev Document := Json (Option String)

/-- An array or object that is still open. What it holds is in reverse. -/
inductive Frame where
  | array (items : List Document)
  | object (members : List (Option String × Document))
  | member (members : List (Option String × Document)) (key : Option String)

inductive Expect where
  | value
  | itemOrEnd
  | memberOrEnd
  | key
  | colon (key : Option String)
  | complete (value : Document)

structure Builder where
  expect : Expect := .value
  stack : List Frame := []

namespace Builder

def scalar? : Token → Option Document
  | .null => some .null
  | .bool b => some (.bool b)
  | .number n => some (.number n)
  | .string s => some (.string s)
  | _ => none

def open? (stack : List Frame) (token : Token) : Option Builder :=
  match token with
  | .openArray => some ⟨.itemOrEnd, .array [] :: stack⟩
  | .openObject => some ⟨.memberOrEnd, .object [] :: stack⟩
  | token => (scalar? token).map fun v => ⟨.complete v, stack⟩

def feed (b : Builder) (token : Token) : Option Builder :=
  match b.expect, b.stack, token with
  | .itemOrEnd, .array items :: stack, .closeArray =>
    some ⟨.complete (.array items.reverse), stack⟩
  | .itemOrEnd, stack, token => open? stack token
  | .value, stack, token => open? stack token
  | .memberOrEnd, .object members :: stack, .closeObject =>
    some ⟨.complete (.object members.reverse), stack⟩
  | .memberOrEnd, stack, .string key => some ⟨.colon key, stack⟩
  | .key, stack, .string key => some ⟨.colon key, stack⟩
  | .colon key, .object members :: stack, .colon => some ⟨.value, .member members key :: stack⟩
  | .complete v, .array items :: stack, .comma => some ⟨.value, .array (v :: items) :: stack⟩
  | .complete v, .array items :: stack, .closeArray =>
    some ⟨.complete (.array (v :: items).reverse), stack⟩
  | .complete v, .member members key :: stack, .comma =>
    some ⟨.key, .object ((key, v) :: members) :: stack⟩
  | .complete v, .member members key :: stack, .closeObject =>
    some ⟨.complete (.object ((key, v) :: members).reverse), stack⟩
  | _, _, _ => none

def result? (b : Builder) : Option Document :=
  match b.expect, b.stack with
  | .complete v, [] => some v
  | _, _ => none

end Builder

def build? (tokens : List Token) : Option Document := do
  (← tokens.foldlM Builder.feed {}).result?

def readGlyphs? (gs : List Text.Glyph) : Option Document := do build? (← tokens? gs)

def read? (text : String) : Option Document := readGlyphs? (Text.glyphsOf text)

def readBytes? (bs : Bytes) : Option Document := readGlyphs? (Text.glyphs bs)

end ChunkStore.Json

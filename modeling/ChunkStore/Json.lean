import ChunkStore.Json.Numeral

/-!
# JSON values

A JSON value, and its compact text. `S` is what is known of a string: its text in
values that are written, and possibly nothing in documents that are read, since a
string may hold half a surrogate pair or bytes that belong to no character.
-/

namespace ChunkStore

inductive Json (S : Type) where
  | null
  | bool (value : Bool)
  | number (value : Json.Numeral)
  | string (text : S)
  | array (items : List (Json S))
  | object (members : List (S × Json S))
  deriving Repr

namespace Json

def nat (n : Nat) : Json String := .number (.ofNat n)

def escape (c : Char) : List Char :=
  if c = '"' then ['\\', '"']
  else if c = '\\' then ['\\', '\\']
  else if c = '\n' then ['\\', 'n']
  else if c = '\r' then ['\\', 'r']
  else if c = '\t' then ['\\', 't']
  else if c.toNat = 8 then ['\\', 'b']
  else if c.toNat = 12 then ['\\', 'f']
  else if c.toNat < 0x20 then '\\' :: 'u' :: Text.hex 4 c.toNat
  else [c]

def quote (s : String) : List Char := '"' :: s.toList.flatMap escape ++ ['"']

mutual

/-- The compact text of a value. Members keep their order. -/
def render : Json String → List Char
  | .null => "null".toList
  | .bool b => (if b then "true" else "false").toList
  | .number n => n.render
  | .string s => quote s
  | .array items => '[' :: renderItems items ++ [']']
  | .object members => '\x7b' :: renderMembers members ++ ['\x7d']

def renderItems : List (Json String) → List Char
  | [] => []
  | [item] => render item
  | item :: items => render item ++ ',' :: renderItems items

def renderMembers : List (String × Json String) → List Char
  | [] => []
  | [(key, value)] => quote key ++ ':' :: render value
  | (key, value) :: members => quote key ++ ':' :: render value ++ ',' :: renderMembers members

end

def text (j : Json String) : String := String.ofList (render j)

def units (c : Char) : List Nat :=
  let n := c.toNat
  if n < 0x10000 then [n]
  else [0xD800 + (n - 0x10000) / 0x400, 0xDC00 + (n - 0x10000) % 0x400]

/-- A character of a text that must be ASCII, written by its code units if it is not. -/
def asciiEscape (c : Char) : List Char :=
  if c.toNat < 0x80 then [c]
  else (units c).flatMap fun u => '\\' :: 'u' :: Text.hex 4 u

def asciiText (j : Json String) : String := String.ofList ((render j).flatMap asciiEscape)

end Json

end ChunkStore

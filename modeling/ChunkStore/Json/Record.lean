import ChunkStore.Json.Document

/-!
# Taking values from documents

What a reader of records accepts. A record is an object, in which known names may not
repeat and unknown ones are passed over, or an array of its members in order. What is
passed over may be anything; what is kept must be text, and if it is kept as it is,
also in the range of numbers and not nested too deep.
-/

namespace ChunkStore.Json

def text? : Document → Option String
  | .string text => text
  | _ => none

def bool? : Document → Option Bool
  | .bool b => some b
  | _ => none

def word? : Document → Option Nat
  | .number n => n.word?
  | _ => none

def list? {α : Type} (take : Document → Option α) : Document → Option (List α)
  | .array items => items.mapM take
  | _ => none

def record? (names : List String) : Document → Option (List (Option Document))
  | .object members => do
    let members ← members.mapM fun (key, value) => key.map fun key => (key, value)
    if names.all fun name => members.countP (·.1 == name) ≤ 1 then
      return names.map fun name => members.lookup name
    else none
  | .array items =>
    if items.length ≤ names.length then
      some (items.map some ++ List.replicate (names.length - items.length) none)
    else none
  | _ => none

def required {α : Type} (take : Document → Option α) (member : Option Document) : Option α :=
  member.bind take

def withDefault {α : Type} (default : α) (take : Document → Option α) :
    Option Document → Option α
  | none => some default
  | some value => take value

def nullable? {α : Type} (take : Document → Option α) : Document → Option (Option α)
  | .null => some none
  | value => (take value).map some

/-- The arrays and objects that a value kept as it is may be nested in. -/
def maxDepth : Nat := 127

/-- A value kept as it is: its strings are texts, its numbers are in range, and arrays
and objects are nested at most `depth` deep. -/
def keep? (depth : Nat) (d : Document) : Option (Json String) :=
  match depth, d with
  | _, .null => some .null
  | _, .bool b => some (.bool b)
  | _, .number n => if n.isFinite then some (.number n) else none
  | _, .string text => text.map .string
  | 0, .array _ => none
  | 0, .object _ => none
  | depth + 1, .array items => (items.mapM (keep? depth)).map .array
  | depth + 1, .object members =>
    (members.mapM fun (member : Option String × Document) => do
      return (← member.1, ← keep? depth member.2)).map .object

/-- The value of a member; of members that share a key, the last. -/
def member? (key : String) : Json String → Option (Json String)
  | .object members => members.reverse.lookup key
  | _ => none

end ChunkStore.Json

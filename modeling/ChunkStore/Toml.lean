/-!
# TOML values

What a TOML document can say. The settings of a store use texts and whole numbers;
numbers with a fraction and dates are kept as they are written.
-/

namespace ChunkStore

inductive Toml where
  | string (text : String)
  | integer (value : Int)
  | float (written : String)
  | boolean (value : Bool)
  | date (written : String)
  | array (items : List Toml)
  | table (members : List (String × Toml))
  deriving Repr

namespace Toml

def text? : Toml → Option String
  | .string text => some text
  | _ => none

def natural? : Toml → Option Nat
  | .integer (.ofNat n) => some n
  | _ => none

/-- The members with the given names, in the order of the names. A record may be
written as an array of its members; items after the last are passed over. A date is a
record of which no member is known. -/
def record? (names : List String) : Toml → Option (List (Option Toml))
  | .table members => some (names.map fun name => members.lookup name)
  | .array items => some (names.mapIdx fun i _ => items[i]?)
  | .date _ => some (names.map fun _ => none)
  | _ => none

end Toml

end ChunkStore

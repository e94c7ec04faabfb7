import ChunkStore.Toml

/-!
# Tables under construction

A table may grow in several places of a document. How it came to be decides what may
extend it: a table with a header of its own has no second one, and dotted keys extend
only tables that dotted keys made. Of an array of tables, the last one grows.
-/

namespace ChunkStore.Toml

inductive Origin where
  | header
  /-- On the way to a table with a longer header. -/
  | passed
  | dotted
  deriving Repr, DecidableEq

/-- A member of a table that may still grow. -/
inductive Node where
  | value (v : Toml)
  | table (origin : Origin) (members : List (String × Node))
  | tables (elements : List (List (String × Node)))

abbrev Members := List (String × Node)

abbrev Key := List String

def Members.alter (name : String) (f : Option Node → Option Node) : Members → Option Members
  | [] => (f none).map fun node => [(name, node)]
  | (key, node) :: members =>
    if key = name then (f (some node)).map fun node => (key, node) :: members
    else (alter name f members).map ((key, node) :: ·)

def alterLast (f : Members → Option Members) (elements : List Members) : Option (List Members) :=
  match elements.getLast? with
  | some last => (f last).map fun last => elements.dropLast ++ [last]
  | none => none

/-- Adds a value under a key, which no table may have yet. -/
def assign (v : Toml) : Key → Members → Option Members
  | [], _ => none
  | [name], members =>
    members.alter name fun
      | none => some (.value v)
      | some _ => none
  | name :: key, members =>
    let inner := key.length = 1
    members.alter name fun
      | none => (assign v key []).map (.table .dotted)
      | some (.table .dotted ms) => (assign v key ms).map (.table .dotted)
      | some (.table .passed ms) =>
        if inner then none else (assign v key ms).map (.table .passed)
      | some (.tables elements) =>
        if inner then none else (alterLast (assign v key) elements).map .tables
      | some (.table .header _) | some (.value _) => none

/-- Changes the member that a header names, making the tables on the way. -/
def atHeader (f : Option Node → Option Node) : Key → Members → Option Members
  | [], _ => none
  | [name], members => members.alter name f
  | name :: key, members =>
    members.alter name fun
      | none => (atHeader f key []).map (.table .passed)
      | some (.table origin ms) => (atHeader f key ms).map (.table origin)
      | some (.tables elements) => (alterLast (atHeader f key) elements).map .tables
      | some (.value _) => none

def openTable (fill : Members → Option Members) : Option Node → Option Node
  | none => (fill []).map (.table .header)
  | some (.table .passed ms) => (fill ms).map (.table .header)
  | some _ => none

def addElement (fill : Members → Option Members) : Option Node → Option Node
  | none => (fill []).map fun ms => .tables [ms]
  | some (.tables elements) => (fill []).map fun ms => .tables (elements ++ [ms])
  | some _ => none

mutual

def Node.close : Node → Toml
  | .value v => v
  | .table _ members => .table (closeMembers members)
  | .tables elements => .array (closeElements elements)

def closeMembers : List (String × Node) → List (String × Toml)
  | [] => []
  | (name, node) :: members => (name, node.close) :: closeMembers members

def closeElements : List (List (String × Node)) → List Toml
  | [] => []
  | members :: elements => .table (closeMembers members) :: closeElements elements

end

end ChunkStore.Toml

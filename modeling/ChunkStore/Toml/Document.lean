import ChunkStore.Toml.Line

/-!
# Reading TOML

A document is a table. The lines before the first header fill the table itself, and
those after a header the table that it names. The whole of a section is put in its
place at once.
-/

namespace ChunkStore.Toml

structure Section where
  /-- None for the start of the document. -/
  header : Option Line := none
  values : List (Key × Toml) := []

/-- The sections made of lines; those that are complete are in reverse. -/
def sectionsFrom (seen : List Section) (current : Section) : List Line → List Section
  | [] => (current :: seen).reverse
  | .assign key v :: lines =>
    sectionsFrom seen { current with values := current.values ++ [(key, v)] } lines
  | header :: lines => sectionsFrom (current :: seen) { header := some header } lines

def Section.fill (s : Section) (members : Members) : Option Members :=
  s.values.foldlM (fun members (key, v) => assign v key members) members

def Section.place (root : Members) (s : Section) : Option Members :=
  match s.header with
  | some (.table key) => atHeader (openTable s.fill) key root
  | some (.element key) => atHeader (addElement s.fill) key root
  | _ => s.fill root

def build? (lines : List Line) : Option Toml := do
  let root ← (sectionsFrom [] {} lines).foldlM Section.place []
  return (Node.table .header root).close

/-- The characters after a byte order mark. -/
def afterMark : List Char → List Char
  | c :: cs => if c = Char.ofNat 0xFEFF then cs else c :: cs
  | [] => []

def read? (text : String) : Option Toml := do
  build? (← lines? (← tokens? (afterMark text.toList)))

end ChunkStore.Toml

import ChunkStore.Memory.Tree

/-!
# Local files

The files of the user as they are named on a command line: pieces of a name are
followed one by one from the working folder. The failures that a file can cause have
the texts of the operating system.
-/

namespace ChunkStore

inductive FileFault where
  | missing
  | notDirectory
  | isDirectory
  | nameTooLong
  /-- The name holds the character that ends names. -/
  | nul
  | notText
  deriving Repr, DecidableEq

namespace FileFault

def number? : FileFault → Option Nat
  | missing => some 2
  | notDirectory => some 20
  | isDirectory => some 21
  | nameTooLong => some 36
  | nul | notText => none

def message : FileFault → String
  | missing => "No such file or directory (os error 2)"
  | notDirectory => "Not a directory (os error 20)"
  | isDirectory => "Is a directory (os error 21)"
  | nameTooLong => "File name too long (os error 36)"
  | nul => "file name contained an unexpected NUL byte"
  | notText => "stream did not contain valid UTF-8"

def failure (fault : FileFault) : Failure := .io fault.message

end FileFault

namespace LocalFiles

def longestPiece : Nat := 255

/-- Follows the pieces of a name through folders that exist. The working folder has
no parent. -/
def walk (t : Tree) (p : Path) : List (List Char) → Except FileFault Path
  | [] => .ok p
  | piece :: rest =>
    match t.get? p with
    | some .folder =>
      if longestPiece < (Text.bytes (String.ofList piece)).length then .error .nameTooLong
      else walk t ⟨Path.follow 0 p.segments piece⟩ rest
    | some (.file _) => .error .notDirectory
    | none => .error .missing

/-- The place that a name leads to. The tree has nothing outside the working folder,
where absolute names lead, except for the root that holds it. -/
def locate (t : Tree) (name : String) : Except FileFault Path :=
  let cs := name.toList
  if cs.contains '\x00' then .error .nul
  else if cs.isEmpty then .error .missing
  else if cs.head? = some '/' ∧ cs.any (· != '/') then .error .missing
  else walk t .root (Path.pieces cs)

def load (t : Tree) (name : String) : Except FileFault Bytes := do
  match t.get? (← locate t name) with
  | some (.file content) => .ok content
  | some .folder => .error .isDirectory
  | none => .error .missing

def save (t : Tree) (name : String) (content : Bytes) : Except FileFault Tree := do
  let p ← locate t name
  match t.get? p with
  | some .folder => .error .isDirectory
  | _ => .ok (t.insert p (.file content))

end LocalFiles

end ChunkStore

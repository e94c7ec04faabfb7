import ChunkStore.Failure
import ChunkStore.Text.Numeral

/-!
# Chunk ids

A chunk is named by a hexadecimal text of even length. Two digits at a time are the
names of the folders that may hold it: after `level` folders the rest of the id,
its remainder, is the name of its file. A deleted chunk, a fossil, carries a suffix.

The invariant is part of the type, so an id exists only for a text that `parse`
accepts.
-/

namespace ChunkStore

def IsHexText (s : String) : Prop :=
  s.toList ≠ [] ∧ s.toList.length % 2 = 0 ∧ ∀ c ∈ s.toList, Text.isHexDigit c = true

structure ChunkId where
  text : String
  hex : IsHexText text
  deriving DecidableEq

instance : Repr ChunkId := ⟨fun id _ => repr id.text⟩

namespace ChunkId

def chunksDir : String := "/chunks"

/-- Ends the file name of a chunk that was logically deleted. -/
def fossilSuffix : String := ".fsl"

inductive Defect where
  | empty
  | oddLength
  /-- A byte, shown as the Latin-1 character of its value, that is no digit. -/
  | badByte (byte : Char) (position : Nat)
  deriving Repr, DecidableEq

/-- A Latin-1 character between apostrophes, with escapes for those that do not
show. -/
def quoted (c : Char) : String :=
  let n := c.toNat
  let body : List Char :=
    if n = 0 then ['\\', '0']
    else if c = '\t' then ['\\', 't']
    else if c = '\n' then ['\\', 'n']
    else if c = '\r' then ['\\', 'r']
    else if c = '\'' then ['\\', '\'']
    else if c = '\\' then ['\\', '\\']
    else if n < 0x20 ∨ (0x7F ≤ n ∧ n ≤ 0xA0) ∨ n = 0xAD then
      "\\u\x7b".toList ++ Nat.toDigits 16 n ++ ['\x7d']
    else [c]
  String.ofList ('\'' :: body ++ ['\''])

def Defect.reason : Defect → String
  | .empty => "empty"
  | .oddLength => "Odd number of digits"
  | .badByte byte position =>
    "Invalid character " ++ quoted byte ++ " at position " ++ position.repr

/-- The first byte of a character, as a character. -/
def leadByte (c : Char) : Char :=
  Char.ofNat ((String.utf8EncodeChar c).headD 0).toNat

/-- The first character that is no digit. All characters before it are single
bytes, so its index is also the position of its first byte. -/
def firstBad (position : Nat) : List Char → Option Defect
  | [] => none
  | c :: cs =>
    if Text.isHexDigit c then firstBad (position + 1) cs
    else some (.badByte (leadByte c) position)

/-- The first defect of a text: emptiness, then an odd number of bytes, then a byte
that is no digit. -/
def defect? (s : String) : Option Defect :=
  if s.toList = [] then some .empty
  else if s.utf8ByteSize % 2 = 1 then some .oddLength
  else firstBad 0 s.toList

theorem firstBad_eq_none_iff (position : Nat) (cs : List Char) :
    firstBad position cs = none ↔ ∀ c ∈ cs, Text.isHexDigit c = true := by
  induction cs generalizing position with
  | nil => simp [firstBad]
  | cons c cs ih =>
    by_cases h : Text.isHexDigit c = true <;> simp [firstBad, h, ih]

theorem utf8Size_of_isHexDigit {c : Char} (h : Text.isHexDigit c = true) : c.utf8Size = 1 := by
  rw [Char.utf8Size_eq_one_iff]
  simp only [Text.isHexDigit, Text.isDigit, Bool.or_eq_true, Bool.and_eq_true,
    decide_eq_true_eq, Char.le_def, UInt32.le_iff_toNat_le] at h ⊢
  have h9 : ('9' : Char).val.toNat = 57 := rfl
  have hf : ('f' : Char).val.toNat = 102 := rfl
  have hF : ('F' : Char).val.toNat = 70 := rfl
  have hb : (127 : UInt32).toNat = 127 := rfl
  omega

theorem utf8ByteSize_eq_length {cs : List Char} (h : ∀ c ∈ cs, Text.isHexDigit c = true) :
    (String.ofList cs).utf8ByteSize = cs.length := by
  induction cs with
  | nil => rfl
  | cons c cs ih =>
    rw [String.ofList_cons, String.utf8ByteSize_append, String.utf8ByteSize_singleton,
      utf8Size_of_isHexDigit (h c (by simp)), ih fun d hd => h d (by simp [hd])]
    simp [Nat.add_comm]

theorem isHexText_iff_defect? (s : String) : IsHexText s ↔ defect? s = none := by
  unfold IsHexText defect?
  by_cases hn : s.toList = []
  · simp [hn]
  by_cases hx : ∀ c ∈ s.toList, Text.isHexDigit c = true
  · have size : s.utf8ByteSize = s.toList.length := by
      simpa using utf8ByteSize_eq_length hx
    have bad := (firstBad_eq_none_iff 0 s.toList).2 hx
    by_cases odd : s.toList.length % 2 = 1
    · simp [hn, size, odd]
    · have even : s.toList.length % 2 = 0 := by omega
      simp only [hn, size, even, bad, ↓reduceIte, Nat.zero_ne_one, ne_eq, not_false_eq_true,
        true_and, iff_true]
      exact hx
  · have bad : firstBad 0 s.toList ≠ none := fun h => hx ((firstBad_eq_none_iff 0 _).1 h)
    simp only [hn, ↓reduceIte, ne_eq, not_false_eq_true, true_and]
    constructor
    · exact fun h => absurd h.2 hx
    · split
      · simp
      · exact fun h => absurd h bad

instance (s : String) : Decidable (IsHexText s) :=
  match h : defect? s with
  | none => .isTrue ((isHexText_iff_defect? s).2 h)
  | some _ => .isFalse fun hex => by simp [(isHexText_iff_defect? s).1 hex] at h

def parse (s : String) : Except Failure ChunkId :=
  match h : defect? s with
  | some d => .error (.invalidChunkId s d.reason)
  | none => .ok ⟨s, (isHexText_iff_defect? s).2 h⟩

def digits (id : ChunkId) : List Char := id.text.toList

def levels (id : ChunkId) : Nat := id.digits.length / 2

/-- The name of the shard folder at `level`; empty past the last level. -/
def shard (id : ChunkId) (level : Nat) : String :=
  String.ofList ((id.digits.drop (2 * level)).take 2)

def remainder (id : ChunkId) (level : Nat) : String :=
  String.ofList (id.digits.drop (2 * level))

def fileName (id : ChunkId) (level : Nat) (fossil : Bool) : String :=
  if fossil then id.remainder level ++ fossilSuffix else id.remainder level

def shard? (id : ChunkId) (level : Nat) : Option String :=
  if level < id.levels then some (id.shard level) else none

def remainder? (id : ChunkId) (level : Nat) : Option String :=
  if level ≤ id.levels then some (id.remainder level) else none

def fileName? (id : ChunkId) (level : Nat) (fossil : Bool) : Option String :=
  if level ≤ id.levels then some (id.fileName level fossil) else none

instance : ToString ChunkId := ⟨text⟩

theorem parse_text (id : ChunkId) : parse id.text = .ok id := by
  have none := (isHexText_iff_defect? id.text).1 id.hex
  unfold parse
  split
  · simp_all
  · rfl

theorem parse_eq_ok_iff {text : String} {id : ChunkId} : parse text = .ok id ↔ id.text = text := by
  constructor
  · intro parsed
    unfold parse at parsed
    split at parsed
    · cases parsed
    · cases parsed
      rfl
  · intro same
    rw [← same]
    exact id.parse_text

theorem parse_isOk_iff (s : String) : (∃ id, parse s = .ok id) ↔ IsHexText s := by
  simp only [parse_eq_ok_iff]
  constructor
  · rintro ⟨id, rfl⟩
    exact id.hex
  · exact fun h => ⟨⟨s, h⟩, rfl⟩

end ChunkId

end ChunkStore

import ChunkStore.Proofs.ChunkPlaces
import Mathlib.Data.String.Basic

/-!
# Slices of ids

A text is stored as bytes, and a part of it is cut out at two offsets, which has to fail where
one of them is inside a character. The digits of an id are single bytes, so its length counts
them, and its shards and remainders can be cut out at every level that it has, and at no other. A
search cuts out only those.
-/

namespace ChunkStore

namespace Text

/-- The part of a text between two offsets in bytes. There is none if the offsets are out of
order, beyond the end or inside a character. -/
def slice? (s : String) (start stop : Nat) : Option String :=
  if start ≤ stop ∧ String.Pos.Raw.isValid s ⟨start⟩ ∧ String.Pos.Raw.isValid s ⟨stop⟩ then
    some (String.Pos.Raw.extract s ⟨start⟩ ⟨stop⟩)
  else none

variable {s part front back front' back' : String} {start stop : Nat}

theorem isValid_iff :
    String.Pos.Raw.isValid s ⟨start⟩ = true ↔
      ∃ front back, s = front ++ back ∧ front.utf8ByteSize = start := by
  rw [String.Pos.Raw.isValid_eq_true_iff, String.Pos.Raw.isValid_iff_exists_append]
  refine exists_congr fun front => exists_congr fun back => and_congr_right fun _ => ?_
  rw [String.Pos.Raw.ext_iff, eq_comm]
  rfl

theorem extract_append (front part back : String) :
    String.Pos.Raw.extract (front ++ part ++ back) ⟨front.utf8ByteSize⟩
      ⟨(front ++ part).utf8ByteSize⟩ = part := by
  have cut := String.extract_of_valid front.toList part.toList back.toList
  simpa [String.append_assoc] using cut

theorem eq_append_of_utf8ByteSize_le (same : front ++ back = front' ++ back')
    (shorter : front.utf8ByteSize ≤ front'.utf8ByteSize) : ∃ part, front' = front ++ part := by
  rw [← String.toList_inj, String.toList_append, String.toList_append,
    List.append_eq_append_iff] at same
  rcases same with ⟨part, longer, -⟩ | ⟨rest, longer, -⟩
  · exact ⟨String.ofList part, by simp [← String.toList_inj, longer]⟩
  · have split : front = front' ++ String.ofList rest := by simp [← String.toList_inj, longer]
    rw [split, String.utf8ByteSize_append] at shorter
    have empty : String.ofList rest = "" := String.utf8ByteSize_eq_zero_iff.1 (by omega)
    exact ⟨"", by rw [split, empty]; simp⟩

/-- A part of a text is cut out exactly where the bytes before it and those in it end. -/
theorem slice?_eq_some_iff :
    slice? s start stop = some part ↔ ∃ front back, s = front ++ part ++ back ∧
      front.utf8ByteSize = start ∧ (front ++ part).utf8ByteSize = stop := by
  unfold slice?
  constructor
  · intro h
    split at h
    · rename_i valid
      obtain ⟨ordered, first, last⟩ := valid
      obtain ⟨front, _, rfl, rfl⟩ := isValid_iff.1 first
      obtain ⟨upto, back, same, rfl⟩ := isValid_iff.1 last
      obtain ⟨middle, rfl⟩ := eq_append_of_utf8ByteSize_le same ordered
      rw [same, extract_append] at h
      cases h
      exact ⟨front, back, same, rfl, rfl⟩
    · cases h
  · intro h
    obtain ⟨front, back, rfl, rfl, rfl⟩ := h
    rw [if_pos, extract_append]
    refine ⟨?_, isValid_iff.2 ⟨front, part ++ back, ?_, rfl⟩, isValid_iff.2 ⟨_, back, rfl, rfl⟩⟩
    · rw [String.utf8ByteSize_append]
      omega
    · rw [String.append_assoc]

/-- Around a character of two bytes, and into it. -/
example : slice? "aé" 1 3 = some "é" ∧ slice? "aé" 1 2 = none := by decide

theorem bounds_of_slice? (h : slice? s start stop = some part) :
    start ≤ stop ∧ stop ≤ s.utf8ByteSize := by
  obtain ⟨front, back, rfl, rfl, rfl⟩ := slice?_eq_some_iff.1 h
  simp only [String.utf8ByteSize_append]
  omega

theorem isHexDigit_iff (c : Char) :
    isHexDigit c = true ↔ c ∈ "0123456789abcdefABCDEF".toList := by
  constructor
  · intro digit
    have single : ∀ n < 128, isHexDigit (.ofNat n) = true →
        Char.ofNat n ∈ "0123456789abcdefABCDEF".toList := by decide
    have small : c.toNat < 128 :=
      Nat.lt_succ_of_le (Char.utf8Size_eq_one_iff.1 (ChunkId.utf8Size_of_isHexDigit digit))
    rw [← Char.ofNat_toNat c] at digit ⊢
    exact single _ small digit
  · have all : "0123456789abcdefABCDEF".toList.all isHexDigit = true := by decide
    exact List.all_eq_true.1 all c

end Text

namespace ChunkId

/-- The texts that are ids, told by their bytes and characters. -/
theorem exists_parse_iff (s : String) :
    (∃ id, parse s = .ok id) ↔ s ≠ "" ∧ s.utf8ByteSize % 2 = 0 ∧
      ∀ c ∈ s.toList, c ∈ "0123456789abcdefABCDEF".toList := by
  have nonempty : s.toList ≠ [] ↔ s ≠ "" := by simp
  simp only [parse_isOk_iff, IsHexText, nonempty, ← Text.isHexDigit_iff]
  refine and_congr_right fun _ => and_congr_left fun digits => ?_
  rw [← utf8ByteSize_eq_length digits, String.ofList_toList]

variable (id : ChunkId)

theorem utf8ByteSize_ofList {cs : List Char} (digits : cs ⊆ id.digits) :
    (String.ofList cs).utf8ByteSize = cs.length :=
  utf8ByteSize_eq_length fun _ mem => id.isHexDigit_of_mem (digits mem)

theorem utf8ByteSize_text : id.text.utf8ByteSize = 2 * id.levels := by
  rw [← id.length_digits, ← id.utf8ByteSize_ofList (List.Subset.refl _), digits,
    String.ofList_toList]

theorem slice?_text {start stop : Nat} (ordered : start ≤ stop) (within : stop ≤ 2 * id.levels) :
    Text.slice? id.text start stop =
      some (String.ofList ((id.digits.drop start).take (stop - start))) := by
  rw [← id.length_digits] at within
  refine Text.slice?_eq_some_iff.2
    ⟨String.ofList (id.digits.take start), String.ofList (id.digits.drop stop), ?_, ?_, ?_⟩
  · have rest : id.digits.drop stop = (id.digits.drop start).drop (stop - start) := by
      rw [List.drop_drop, Nat.add_sub_cancel' ordered]
    rw [← String.ofList_append, ← String.ofList_append, rest, List.append_assoc,
      List.take_append_drop, List.take_append_drop, digits, String.ofList_toList]
  · rw [id.utf8ByteSize_ofList (List.take_subset ..), List.length_take]
    omega
  · rw [← String.ofList_append, id.utf8ByteSize_ofList, List.length_append, List.length_take,
      List.length_take, List.length_drop]
    · omega
    · exact List.append_subset.2 ⟨List.take_subset .., fun _ mem =>
        List.mem_of_mem_drop (List.mem_of_mem_take mem)⟩

theorem slice?_beyond {start stop : Nat} (beyond : stop < start ∨ 2 * id.levels < stop) :
    Text.slice? id.text start stop = none := by
  rw [Option.eq_none_iff_forall_ne_some]
  intro part cut
  have bounds := Text.bounds_of_slice? cut
  rw [id.utf8ByteSize_text] at bounds
  omega

theorem slice?_shard (level : Nat) :
    Text.slice? id.text (2 * level) (2 * level + 2) = id.shard? level := by
  unfold shard?
  split
  · rw [id.slice?_text (Nat.le_add_right ..) (by omega), Nat.add_sub_cancel_left, shard]
  · exact id.slice?_beyond (.inr (by omega))

theorem slice?_remainder (level : Nat) :
    Text.slice? id.text (2 * level) id.text.utf8ByteSize = id.remainder? level := by
  unfold remainder?
  split
  · rw [id.utf8ByteSize_text, id.slice?_text (by omega) (Nat.le_refl _), remainder,
      List.take_of_length_le]
    rw [List.length_drop, id.length_digits]
  · exact id.slice?_beyond (.inl (by rw [id.utf8ByteSize_text]; omega))

end ChunkId

namespace Locator

open Directory

variable (nesting thread : Nat) (id : ChunkId) (fossil : Bool)

/-- A part of the id's text; without it the search ends. -/
def cut (start stop : Nat) : OptionT (Program interface) String :=
  .mk (.done (Text.slice? id.text start stop))

def cutFilePath (dir : Path) (level : Nat) : OptionT (Program interface) String := do
  let rest ← cut id (2 * level) id.text.utf8ByteSize
  return (dir.join (if fossil then rest ++ ChunkId.fossilSuffix else rest)).toString

def cutProbe (level : Nat) (dir : Path) :
    OptionT (Program interface) (Option ChunkLocation) :=
  if nesting ≤ level then do
    let path ← cutFilePath id fossil dir level
    let info ← OptionT.lift (stat thread path)
    return if info.present then some (.found path info.size) else none
  else return none

/-- The search with every name cut out of the id where it is needed. -/
def cutDescend : (remaining level : Nat) → (dir : Path) →
    OptionT (Program interface) ChunkLocation
  | 0, _, _ => OptionT.lift (.failed (.chunkNestingExhausted id.text id.levels))
  | remaining + 1, level, dir => do
    match ← cutProbe nesting thread id fossil level dir with
    | some found => return found
    | none =>
      let shard := dir.join (← cut id (2 * level) (2 * level + 2))
      let info ← OptionT.lift (stat thread shard.toString)
      if info.present then cutDescend remaining (level + 1) shard
      else if level < nesting then do
        OptionT.lift (create thread shard.toString)
        cutDescend remaining (level + 1) shard
      else return .missing (← cutFilePath id fossil dir level)

variable {nesting thread id fossil} {level : Nat}

theorem cut_shard (h : level < id.levels) :
    cut id (2 * level) (2 * level + 2) = pure (id.shard level) := by
  rw [cut, id.slice?_shard, ChunkId.shard?, if_pos h]
  rfl

theorem cutFilePath_eq (h : level < id.levels) (dir : Path) :
    cutFilePath id fossil dir level = pure (filePath dir id level fossil) := by
  rw [cutFilePath, cut, id.slice?_remainder, ChunkId.remainder?, if_pos (Nat.le_of_lt h)]
  rfl

theorem cutProbe_eq (h : level < id.levels) (dir : Path) :
    cutProbe nesting thread id fossil level dir =
      OptionT.lift (probe nesting thread id fossil level dir) := by
  rw [cutProbe, probe]
  split
  · rw [cutFilePath_eq h, pure_bind, OptionT.lift_bind]
    rfl
  · rfl

/-- As long as there are levels, whatever the search cuts out is there. -/
theorem cutDescend_eq {remaining : Nat} (levels : level + remaining ≤ id.levels) (dir : Path) :
    cutDescend nesting thread id fossil remaining level dir =
      OptionT.lift (descend nesting thread id fossil remaining level dir) := by
  induction remaining generalizing level dir with
  | zero => rfl
  | succ remaining ih =>
    have here : level < id.levels := by omega
    have below : level + 1 + remaining ≤ id.levels := by omega
    rw [cutDescend, descend, cutProbe_eq here, OptionT.lift_bind]
    congr 1
    funext found
    cases found with
    | some found => rfl
    | none =>
      dsimp only
      rw [cut_shard here, pure_bind, OptionT.lift_bind]
      congr 1
      funext info
      split
      · exact ih below _
      · split
        · rw [OptionT.lift_bind]
          congr 1
          funext created
          exact ih below _
        · rw [cutFilePath_eq here, pure_bind]
          rfl

end Locator

end ChunkStore

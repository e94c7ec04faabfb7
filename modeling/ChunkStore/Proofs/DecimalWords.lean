import ChunkStore.Text.Numeral
import Mathlib.Data.List.Basic
import Mathlib.Data.List.Induction

/-!
# Numbers of 64 bits in decimal

A number is read from the digits with which it is written. Leading zeros count for nothing, and
a plus sign may stand in front of them; from any other text no number is read.
-/

namespace ChunkStore

namespace Text

variable {cs : List Char} {n zeros : Nat}

theorem isDigit_eq (c : Char) : isDigit c = c.isDigit := rfl

theorem value_ten (h : ∀ c ∈ cs, isDigit c = true) : value 10 cs = Nat.ofDigitChars 10 cs 0 := by
  have fold (n : Nat) : cs.foldl (fun n c => n * 10 + hexValue c) n = Nat.ofDigitChars 10 cs n := by
    induction cs generalizing n with
    | nil => rfl
    | cons c cs ih =>
      have digit : hexValue c = c.toNat - '0'.toNat := by
        rw [hexValue, if_pos (h c (by simp))]
      rw [List.foldl_cons, Nat.ofDigitChars_cons, digit, Nat.mul_comm,
        ih fun d hd => h d (by simp [hd])]
  exact fold 0

theorem isDigit_of_mem_toDigits {c : Char} (h : c ∈ Nat.toDigits 10 n) : isDigit c = true := by
  rw [isDigit_eq]
  exact Nat.isDigit_of_mem_toDigits (by decide) (by decide) h

theorem word?_of_digits (some : cs ≠ []) (h : ∀ c ∈ cs, isDigit c = true) :
    word? cs = if Nat.ofDigitChars 10 cs 0 < wordBound then .some (Nat.ofDigitChars 10 cs 0)
      else none := by
  have run : (cs.isEmpty || !cs.all isDigit) = false := by
    simp only [Bool.or_eq_false_iff, List.isEmpty_eq_false_iff, Bool.not_eq_false',
      List.all_eq_true]
    exact ⟨some, h⟩
  rw [word?, run, if_neg Bool.false_ne_true, value_ten h]

theorem digitChar_of_isDigit {c : Char} (h : isDigit c = true) :
    ∃ d < 10, c = d.digitChar ∧ c.toNat - '0'.toNat = d := by
  have between : '0'.toNat ≤ c.toNat ∧ c.toNat ≤ '9'.toNat := by
    rw [isDigit, Bool.and_eq_true, decide_eq_true_iff, decide_eq_true_iff] at h
    exact h
  have zero : '0'.toNat = 48 := rfl
  have nine : '9'.toNat = 57 := rfl
  have small : c.toNat - '0'.toNat < 10 := by omega
  refine ⟨c.toNat - '0'.toNat, small, ?_, rfl⟩
  apply Char.toNat_inj.1
  rw [Nat.toNat_digitChar_of_lt_ten small]
  omega

/-- A number in decimal behind leading zeros. -/
def padded (zeros n : Nat) : List Char := List.replicate zeros '0' ++ Nat.toDigits 10 n

theorem isDigit_of_mem_padded {c : Char} (h : c ∈ padded zeros n) : isDigit c = true := by
  rcases List.mem_append.1 h with zero | written
  · rw [List.eq_of_mem_replicate zero]
    rfl
  · exact isDigit_of_mem_toDigits written

theorem ofDigitChars_padded : Nat.ofDigitChars 10 (padded zeros n) 0 = n := by
  rw [padded, Nat.ofDigitChars_append, Nat.ofDigitChars_replicate_zero, Nat.mul_zero,
    Nat.ofDigitChars_ten_toDigits]

theorem eq_padded (some : cs ≠ []) (h : ∀ c ∈ cs, isDigit c = true) :
    ∃ zeros, cs = padded zeros (Nat.ofDigitChars 10 cs 0) := by
  unfold padded
  induction cs using List.reverseRecOn with
  | nil => exact absurd rfl some
  | append_singleton front c ih =>
    obtain ⟨d, small, rfl, value⟩ := digitChar_of_isDigit (h c (by simp))
    rw [Nat.ofDigitChars_append, Nat.ofDigitChars_cons, value, Nat.ofDigitChars_nil]
    by_cases first : front = []
    · refine ⟨0, ?_⟩
      rw [first, Nat.ofDigitChars_nil, Nat.mul_zero, Nat.zero_add, Nat.toDigits_of_lt_base small]
      rfl
    · obtain ⟨zeros, written⟩ := ih first fun e he => h e (by simp [he])
      -- A front of zeros alone is no part of the number that is written.
      rcases Nat.eq_zero_or_pos (Nat.ofDigitChars 10 front 0) with none | pos
      · refine ⟨zeros + 1, ?_⟩
        rw [none] at written ⊢
        rw [written, Nat.mul_zero, Nat.zero_add, Nat.toDigits_zero, Nat.toDigits_of_lt_base small,
          List.replicate_succ']
      · refine ⟨zeros, ?_⟩
        rw [← Nat.toDigits_append_toDigits (by decide) pos small, ← List.append_assoc, ← written,
          Nat.toDigits_of_lt_base small]

/-- A number is read from its digits behind any leading zeros, and from nothing else. -/
theorem word?_eq_some_iff : word? cs = some n ↔ n < wordBound ∧ ∃ zeros, cs = padded zeros n := by
  constructor
  · intro read
    have run : cs ≠ [] ∧ ∀ c ∈ cs, isDigit c = true := by
      unfold word? at read
      split at read
      · cases read
      · rename_i run
        simpa using run
    rw [word?_of_digits run.1 run.2] at read
    split at read
    · rename_i small
      cases read
      exact ⟨small, eq_padded run.1 run.2⟩
    · cases read
  · intro written
    obtain ⟨small, zeros, rfl⟩ := written
    have some : padded zeros n ≠ [] := List.append_ne_nil_of_right_ne_nil _ Nat.toDigits_ne_nil
    rw [word?_of_digits some fun _ => isDigit_of_mem_padded, ofDigitChars_padded]
    exact if_pos small

theorem padded_ne_plus : padded zeros n ≠ '+' :: cs := by
  intro signed
  have plus : isDigit '+' = true := by
    apply isDigit_of_mem_padded
    rw [signed]
    exact List.mem_cons_self
  cases plus

/-- A plus sign may stand before the digits of a number. -/
theorem signedWord?_eq_some_iff :
    signedWord? cs = some n ↔
      n < wordBound ∧ ∃ sign ∈ [[], ['+']], ∃ zeros, cs = sign ++ padded zeros n := by
  constructor
  · intro read
    unfold signedWord? at read
    split at read
    · obtain ⟨small, zeros, rfl⟩ := word?_eq_some_iff.1 read
      exact ⟨small, ['+'], by simp, zeros, rfl⟩
    · obtain ⟨small, zeros, rfl⟩ := word?_eq_some_iff.1 read
      exact ⟨small, [], by simp, zeros, rfl⟩
  · intro written
    obtain ⟨small, sign, known, zeros, rfl⟩ := written
    have read := word?_eq_some_iff.2 ⟨small, zeros, rfl⟩
    rcases List.mem_pair.1 known with rfl | rfl
    · rw [List.nil_append, signedWord?]
      · exact read
      · intro digits
        exact padded_ne_plus
    · exact read

end Text

end ChunkStore

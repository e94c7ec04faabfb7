import ChunkStore.Rate
import Mathlib.Algebra.Order.Field.Power
import Mathlib.Data.Rat.Cast.Order
import Mathlib.Algebra.Group.Nat.Even
import Mathlib.Tactic.Linarith
import Mathlib.Tactic.FieldSimp
import Mathlib.Tactic.Positivity
import Mathlib.Tactic.Ring

/-!
# Nearest doubles

The double nearest to a quotient is a whole multiple of a power of two that depends on the size
of the quotient. Of two quotients the greater one never has the smaller double, although the
two may be multiples of different powers. So a limit never allots less time to more bytes.
-/

namespace ChunkStore

namespace Numeric

/-- `n` is the whole number nearest to `x`, and even where two are equally near. -/
structure Nearest (x : ℚ) (n : ℕ) : Prop where
  below : (n : ℚ) ≤ x + 1 / 2
  above : x ≤ n + 1 / 2
  tie : (n : ℚ) = x + 1 / 2 ∨ x = n + 1 / 2 → Even n

/-- Rounding keeps the order: two numbers that it would swap lie both halfway between the same
two neighbours, and of these only one is even. -/
theorem Nearest.mono {x y : ℚ} {m n : ℕ} (hx : Nearest x m) (hy : Nearest y n) (h : x ≤ y) :
    m ≤ n := by
  by_contra less
  have step : (n : ℚ) + 1 ≤ m := by exact_mod_cast Nat.lt_of_not_le less
  have low := hx.below
  have high := hy.above
  have even : Even m := hx.tie (.inl (by linarith))
  have other : Even n := hy.tie (.inr (by linarith))
  have next : m = n + 1 := by
    have : (m : ℚ) = n + 1 := by linarith
    exact_mod_cast this
  rw [next, Nat.even_add_one] at even
  exact even other

theorem nearest_natCast (n : ℕ) : Nearest n n where
  below := by linarith
  above := by linarith
  tie := by
    rintro (half | half) <;> linarith

theorem nearest_roundDiv (num : ℕ) {den : ℕ} (h : 0 < den) :
    Nearest (num / den) (roundDiv num den) := by
  have positive : (0 : ℚ) < den := by exact_mod_cast h
  obtain ⟨rest, hrest⟩ : ∃ rest : ℚ, rest = (num % den : ℕ) / den := ⟨_, rfl⟩
  have split : (num : ℚ) / den = (num / den : ℕ) + rest := by
    rw [hrest, eq_comm, ← mul_left_inj' positive.ne', add_mul, div_mul_cancel₀ _ positive.ne',
      div_mul_cancel₀ _ positive.ne']
    exact_mod_cast Nat.div_add_mod' num den
  have nonneg : 0 ≤ rest := by
    rw [hrest]
    positivity
  have small : rest < 1 := by
    rw [hrest, div_lt_one positive]
    exact_mod_cast Nat.mod_lt num h
  have less_iff : 2 * (num % den) < den ↔ rest < 1 / 2 := by
    rw [hrest, div_lt_div_iff₀ positive two_pos, one_mul, mul_comm]
    exact_mod_cast Iff.rfl
  have more_iff : den < 2 * (num % den) ↔ 1 / 2 < rest := by
    rw [hrest, div_lt_div_iff₀ two_pos positive, one_mul, mul_comm (_ : ℚ) 2]
    exact_mod_cast Iff.rfl
  rw [split, roundDiv]
  split_ifs with less more
  · have := less_iff.1 less
    refine ⟨by linarith, by linarith, ?_⟩
    rintro (half | half) <;> linarith
  · have := more_iff.1 more
    refine ⟨by push_cast; linarith, by push_cast; linarith, ?_⟩
    rintro (half | half) <;> push_cast at half <;> linarith
  · have half : rest = 1 / 2 := by
      apply le_antisymm
      · exact not_lt.1 fun up => more (more_iff.2 up)
      · exact not_lt.1 fun down => less (less_iff.2 down)
    rcases Nat.mod_two_eq_zero_or_one (num / den) with even | odd
    · rw [even, half]
      exact ⟨by push_cast; linarith, by push_cast; linarith, fun _ => Nat.even_iff.2 even⟩
    · rw [odd, half]
      exact ⟨by push_cast; linarith, by push_cast; linarith, fun _ => Nat.even_iff.2 (by omega)⟩

/-- A quotient, shifted by the size of its denominator, is less than two to its magnitude and at
least half of that. -/
theorem magnitude_spec {num den : ℕ} (hn : 0 < num) (hd : 0 < den) :
    den * 2 ^ magnitude num den ≤ 2 * (num * 2 ^ den.log2) ∧
      num * 2 ^ den.log2 < den * 2 ^ magnitude num den := by
  have hn₁ := Nat.log2_self_le hn.ne'
  have hn₂ := Nat.lt_log2_self (n := num)
  have hd₁ := Nat.log2_self_le hd.ne'
  have hd₂ := Nat.lt_log2_self (n := den)
  have under : num * 2 ^ den.log2 < den * 2 ^ (num.log2 + 1) := by
    calc num * 2 ^ den.log2 < 2 ^ (num.log2 + 1) * 2 ^ den.log2 :=
          Nat.mul_lt_mul_of_pos_right hn₂ (by positivity)
      _ ≤ 2 ^ (num.log2 + 1) * den := Nat.mul_le_mul_left _ hd₁
      _ = den * 2 ^ (num.log2 + 1) := Nat.mul_comm ..
  have atMost : den * 2 ^ num.log2 ≤ 2 * (num * 2 ^ den.log2) := by
    calc den * 2 ^ num.log2 ≤ 2 ^ (den.log2 + 1) * num :=
          Nat.mul_le_mul (Nat.le_of_lt hd₂) hn₁
      _ = 2 * (num * 2 ^ den.log2) := by rw [Nat.pow_succ]; ring
  unfold magnitude
  rw [Nat.shiftLeft_eq, Nat.shiftLeft_eq]
  split_ifs with less
  · exact ⟨atMost, less⟩
  · refine ⟨?_, under⟩
    rw [Nat.pow_succ, ← Nat.mul_assoc, Nat.mul_comm 2]
    exact Nat.mul_le_mul_right 2 (Nat.le_of_not_lt less)

theorem two_zpow_sub (m n : ℕ) : (2 : ℚ) ^ ((m : ℤ) - n) = 2 ^ (m - n) / 2 ^ (n - m) := by
  rcases Nat.le_total m n with h | h
  · obtain ⟨k, rfl⟩ := Nat.exists_eq_add_of_le h
    simp
  · obtain ⟨k, rfl⟩ := Nat.exists_eq_add_of_le h
    simp

namespace Ratio

def value (a : Ratio) : ℚ := a.num / a.den

/-- The nearest double is a multiple of two to this power. -/
def scale (a : Ratio) : ℤ := magnitude a.num a.den - (53 + a.den.log2 : ℕ)

variable {a b : Ratio}

theorem value_between (hn : 0 < a.num) (hd : 0 < a.den) :
    2 ^ 52 * 2 ^ a.scale ≤ a.value ∧ a.value < 2 ^ 53 * 2 ^ a.scale := by
  have positive : (0 : ℚ) < a.den := by exact_mod_cast hd
  have power : (2 : ℚ) ^ 53 * 2 ^ a.scale = 2 ^ magnitude a.num a.den / 2 ^ a.den.log2 := by
    rw [scale, zpow_sub₀ two_ne_zero, zpow_natCast, zpow_natCast, pow_add]
    field_simp
  obtain ⟨low, high⟩ := magnitude_spec hn hd
  have low' : (a.den : ℚ) * 2 ^ magnitude a.num a.den ≤ 2 * (a.num * 2 ^ a.den.log2) := by
    exact_mod_cast low
  have high' : (a.num : ℚ) * 2 ^ a.den.log2 < a.den * 2 ^ magnitude a.num a.den := by
    exact_mod_cast high
  constructor
  · have half : (2 : ℚ) ^ 52 * 2 ^ a.scale = 2 ^ magnitude a.num a.den / 2 ^ a.den.log2 / 2 := by
      rw [← power]
      ring
    rw [half, value, div_div, div_le_div_iff₀ (by positivity) positive]
    linarith
  · rw [power, value, div_lt_div_iff₀ positive (by positivity)]
    linarith

/-- How many times that power of two the nearest double is. -/
def significand (a : Ratio) : ℕ :=
  roundDiv (a.num <<< (53 + a.den.log2 - magnitude a.num a.den))
    (a.den <<< (magnitude a.num a.den - (53 + a.den.log2)))

theorem value_toDouble (hn : 0 < a.num) : a.toDouble.value = a.significand * 2 ^ a.scale := by
  rw [toDouble, if_neg hn.ne', value, scale, two_zpow_sub, significand]
  simp only [Nat.shiftLeft_eq, one_mul]
  push_cast
  rw [mul_div_assoc]

theorem nearest_significand (hd : 0 < a.den) :
    Nearest (a.value / 2 ^ a.scale) a.significand := by
  have positive : 0 < a.den <<< (magnitude a.num a.den - (53 + a.den.log2)) := by
    rw [Nat.shiftLeft_eq]
    positivity
  have nearest := nearest_roundDiv
    (a.num <<< (53 + a.den.log2 - magnitude a.num a.den)) positive
  have quotient : ((a.num <<< (53 + a.den.log2 - magnitude a.num a.den) : ℕ) : ℚ) /
      (a.den <<< (magnitude a.num a.den - (53 + a.den.log2)) : ℕ) = a.value / 2 ^ a.scale := by
    rw [scale, two_zpow_sub, value, Nat.shiftLeft_eq, Nat.shiftLeft_eq]
    push_cast
    rw [div_div_div_eq]
  rwa [quotient] at nearest

theorem significand_between (hn : 0 < a.num) (hd : 0 < a.den) :
    2 ^ 52 ≤ a.significand ∧ a.significand ≤ 2 ^ 53 := by
  have positive : (0 : ℚ) < 2 ^ a.scale := by positivity
  have nearest := nearest_significand hd
  obtain ⟨low, high⟩ := value_between hn hd
  constructor
  · apply (nearest_natCast (2 ^ 52)).mono nearest
    rw [le_div_iff₀ positive]
    exact_mod_cast low
  · apply nearest.mono (nearest_natCast (2 ^ 53))
    rw [div_le_iff₀ positive]
    exact_mod_cast high.le

theorem value_nonneg (a : Ratio) : 0 ≤ a.value := by
  unfold value
  positivity

/-- A greater quotient is near a multiple of a greater power of two, or of the same. -/
theorem scale_mono (ha : 0 < a.num) (hd : 0 < a.den) (hb : 0 < b.num) (he : 0 < b.den)
    (h : a.value ≤ b.value) : a.scale ≤ b.scale := by
  have chain : (2 : ℚ) ^ (52 + a.scale) < 2 ^ (53 + b.scale) := by
    calc (2 : ℚ) ^ (52 + a.scale) = 2 ^ 52 * 2 ^ a.scale := by rw [zpow_add₀ two_ne_zero]; rfl
      _ ≤ a.value := (value_between ha hd).1
      _ ≤ b.value := h
      _ < 2 ^ 53 * 2 ^ b.scale := (value_between hb he).2
      _ = 2 ^ (53 + b.scale) := by rw [zpow_add₀ two_ne_zero]; rfl
  have less := (zpow_lt_zpow_iff_right₀ (one_lt_two : (1 : ℚ) < 2)).1 chain
  omega

/-- Of two quotients the greater one never has the smaller double. -/
theorem value_toDouble_mono (hd : 0 < a.den) (he : 0 < b.den) (h : a.value ≤ b.value) :
    a.toDouble.value ≤ b.toDouble.value := by
  rcases Nat.eq_zero_or_pos a.num with zero | ha
  · rw [toDouble, if_pos zero, value, Nat.cast_zero, zero_div]
    exact value_nonneg _
  have hb : 0 < b.num := by
    have positive : 0 < a.value := by
      unfold value
      positivity
    by_contra none
    rw [value, value, Nat.eq_zero_of_not_pos none, Nat.cast_zero, zero_div] at h
    exact absurd (positive.trans_le h) (lt_irrefl 0)
  rw [value_toDouble ha, value_toDouble hb]
  have positive : (0 : ℚ) < 2 ^ a.scale := by positivity
  rcases (scale_mono ha hd hb he h).eq_or_lt with same | less
  · rw [← same]
    apply mul_le_mul_of_nonneg_right _ positive.le
    have nearest := nearest_significand he
    rw [← same] at nearest
    have ordered := (nearest_significand hd).mono nearest (div_le_div_of_nonneg_right h positive.le)
    exact_mod_cast ordered
  · -- Even the greatest significand gives no more here than the least does at the next power.
    have top : (a.significand : ℚ) ≤ 2 ^ 53 := by exact_mod_cast (significand_between ha hd).2
    have bottom : (2 : ℚ) ^ 52 ≤ b.significand := by exact_mod_cast (significand_between hb he).1
    calc (a.significand : ℚ) * 2 ^ a.scale ≤ 2 ^ 53 * 2 ^ a.scale :=
          mul_le_mul_of_nonneg_right top positive.le
      _ = 2 ^ 52 * 2 ^ (a.scale + 1) := by rw [zpow_add_one₀ two_ne_zero]; ring
      _ ≤ 2 ^ 52 * 2 ^ b.scale :=
          mul_le_mul_of_nonneg_left (zpow_le_zpow_right₀ one_le_two less) (by positivity)
      _ ≤ b.significand * 2 ^ b.scale := mul_le_mul_of_nonneg_right bottom (by positivity)

@[simp] theorem value_ofNat (n : ℕ) : (ofNat n).value = n := by simp [value, ofNat]

@[simp] theorem value_mul (a b : Ratio) : (a.mul b).value = a.value * b.value := by
  simp only [value, mul, Nat.cast_mul]
  exact mul_div_mul_comm ..

@[simp] theorem value_div (a b : Ratio) : (a.div b).value = a.value / b.value := by
  simp only [value, div, Nat.cast_mul]
  exact (div_div_div_eq ..).symm

theorem den_toDouble_pos (a : Ratio) : 0 < a.toDouble.den := by
  unfold toDouble
  split
  · exact Nat.one_pos
  · simp only [Nat.shiftLeft_eq]
    positivity

theorem num_toDouble_pos (hn : 0 < a.num) (hd : 0 < a.den) : 0 < a.toDouble.num := by
  have positive : 0 < a.significand :=
    Nat.lt_of_lt_of_le (Nat.two_pow_pos 52) (significand_between hn hd).1
  rw [toDouble, if_neg hn.ne']
  change 0 < a.significand <<< _
  rw [Nat.shiftLeft_eq]
  positivity

theorem round_mono (hd : 0 < a.den) (he : 0 < b.den) (h : a.value ≤ b.value) :
    a.round ≤ b.round :=
  (nearest_roundDiv a.num hd).mono (nearest_roundDiv b.num he) h

end Ratio

end Numeric

namespace RateLimit

open Numeric Ratio

theorem isUnlimited_eq_false_iff {l : RateLimit} :
    l.isUnlimited = false ↔ 0 < l.kilobytes := by
  rw [isUnlimited, beq_eq_false_iff_ne]
  exact Nat.pos_iff_ne_zero.symm

theorem bytesPerSecond_pos {l : RateLimit} (h : 0 < l.kilobytes) : 0 < l.bytesPerSecond := by
  unfold bytesPerSecond
  have bound : 0 < Text.wordBound - 1 := by decide
  exact Nat.lt_min.2 ⟨by omega, bound⟩

/-- More bytes are never allotted less time. -/
theorem allotment_mono {l : RateLimit} (h : 0 < l.kilobytes) : Monotone l.allotment := by
  intro m n less
  have rate : 0 < (ofNat l.bytesPerSecond).toDouble.num :=
    num_toDouble_pos (bytesPerSecond_pos h) Nat.one_pos
  have den (k : ℕ) : 0 < ((ofNat k).toDouble.div (ofNat l.bytesPerSecond).toDouble).den :=
    Nat.mul_pos (den_toDouble_pos _) rate
  have bytes : (ofNat m).toDouble.value ≤ (ofNat n).toDouble.value := by
    apply value_toDouble_mono Nat.one_pos Nat.one_pos
    simpa using less
  have seconds : ((ofNat m).toDouble.div (ofNat l.bytesPerSecond).toDouble).toDouble.value ≤
      ((ofNat n).toDouble.div (ofNat l.bytesPerSecond).toDouble).toDouble.value := by
    apply value_toDouble_mono (den m) (den n)
    rw [value_div, value_div]
    exact div_le_div_of_nonneg_right bytes (value_nonneg _)
  apply round_mono
  · exact Nat.mul_pos (den_toDouble_pos _) Nat.one_pos
  · exact Nat.mul_pos (den_toDouble_pos _) Nat.one_pos
  · rw [value_mul, value_mul]
    exact mul_le_mul_of_nonneg_right seconds (value_nonneg _)

end RateLimit

end ChunkStore

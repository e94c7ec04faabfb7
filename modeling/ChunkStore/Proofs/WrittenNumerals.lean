import ChunkStore.Json.Token

/-!
# Written numbers

A number that follows the grammar of JSON is read back from its text, part by part: no part of
it can take a character of the next, since a run of digits ends where no digit follows.
-/

namespace ChunkStore.Json.Numeral

def Digits (run : List Char) : Prop := run ≠ [] ∧ ∀ c ∈ run, Text.isDigit c = true

/-- The number follows the grammar: each part that is there has digits, and a leading zero
stands alone. -/
structure Formed (n : Numeral) : Prop where
  whole : Digits n.whole
  leading : n.whole.head? = some '0' → n.whole.length = 1
  fraction : ∀ run, n.fraction = some run → Digits run
  exponent : ∀ negative run, n.exponent = some (negative, run) → Digits run

variable {n : Numeral} {run rest cs : List Char}

/-- A text that cannot go on a run of digits. -/
def Stops (rest : List Char) : Prop := ∀ c ∈ rest.head?, Text.isDigit c = false

/-- A run ends where no digit follows. -/
theorem digits?_append (h : Digits run) (ends : Stops rest) :
    digits? (run ++ rest) = some (run, rest) := by
  have stops : rest.takeWhile Text.isDigit = [] ∧ rest.dropWhile Text.isDigit = rest := by
    cases rest with
    | nil => exact ⟨rfl, rfl⟩
    | cons c rest => simp [ends c rfl]
  have some : run.isEmpty = false := List.isEmpty_eq_false_iff.2 h.1
  unfold digits?
  rw [List.takeWhile_append_of_pos h.2, List.dropWhile_append_of_pos h.2, stops.1, stops.2,
    List.append_nil]
  simp only [some, Bool.false_eq_true, if_false]

theorem digits?_run (h : Digits run) : digits? run = some (run, []) := by
  have whole : digits? (run ++ []) = some (run, []) := digits?_append h nofun
  rwa [List.append_nil] at whole

theorem Digits.ne_cons (h : Digits run) {sign : Char} (other : Text.isDigit sign = false)
    (tail : List Char) : run ≠ sign :: tail := by
  intro same
  have digit := h.2 sign (by simp [same])
  rw [other] at digit
  cases digit

def exponentText : Option (Bool × List Char) → List Char
  | some (true, run) => 'e' :: '-' :: run
  | some (false, run) => 'e' :: run
  | none => []

def fractionText : Option (List Char) → List Char
  | some run => '.' :: run
  | none => []

theorem render_eq (n : Numeral) :
    n.render = (if n.negative then ['-'] else []) ++
      (n.whole ++ (fractionText n.fraction ++ exponentText n.exponent)) := by
  rw [render, List.append_assoc, List.append_assoc]
  rfl

theorem exponent?_exponentText {e : Option (Bool × List Char)}
    (h : ∀ negative run, e = some (negative, run) → Digits run) :
    exponent? (exponentText e) = some e := by
  match e with
  | none => rfl
  | some (true, run) =>
    rw [exponentText, exponent?]
    simp [digits?_run (h true run rfl)]
  | some (false, run) =>
    have digits := h false run rfl
    rw [exponentText, exponent?, if_pos (.inl rfl), digits?_run digits]
    · exact digits.ne_cons rfl
    · exact digits.ne_cons rfl

theorem stops_exponentText (e : Option (Bool × List Char)) : Stops (exponentText e) := by
  intro c first
  match e with
  | none => cases first
  | some (true, run) =>
    cases first
    rfl
  | some (false, run) =>
    cases first
    rfl

theorem exponentText_ne (e : Option (Bool × List Char)) (tail : List Char) :
    exponentText e ≠ '.' :: tail := by
  match e with
  | none => exact nofun
  | some (true, run) => exact fun same => absurd (List.cons.inj same).1 (by decide)
  | some (false, run) => exact fun same => absurd (List.cons.inj same).1 (by decide)

theorem stops_fraction (n : Numeral) :
    Stops (fractionText n.fraction ++ exponentText n.exponent) := by
  cases n.fraction with
  | none => exact stops_exponentText n.exponent
  | some run =>
    intro c first
    cases first
    rfl

/-- Reads what stands behind the sign. -/
def unsigned? (negative : Bool) (cs : List Char) : Option Numeral := do
  let (whole, cs) ← digits? cs
  if whole.head? = some '0' ∧ whole.length ≠ 1 then none
  else
    match cs with
    | '.' :: cs => do
      let (fraction, cs) ← digits? cs
      return { negative, whole, fraction := some fraction, exponent := ← exponent? cs }
    | cs => return { negative, whole, exponent := ← exponent? cs }

theorem read?_negative (cs : List Char) : read? ('-' :: cs) = unsigned? true cs := rfl

theorem read?_positive (h : ∀ tail, cs ≠ '-' :: tail) : read? cs = unsigned? false cs := by
  rw [read?]
  · rfl
  · exact h

theorem unsigned?_render (h : n.Formed) :
    unsigned? n.negative (n.whole ++ (fractionText n.fraction ++ exponentText n.exponent)) =
      some n := by
  have alone : ¬(n.whole.head? = some '0' ∧ n.whole.length ≠ 1) :=
    fun ⟨zero, more⟩ => more (h.leading zero)
  have exponent := exponent?_exponentText h.exponent
  have stops := stops_exponentText n.exponent
  rw [unsigned?, digits?_append h.whole (stops_fraction n)]
  simp only [Option.bind_eq_bind, Option.bind_some, if_neg alone]
  match same : n.fraction with
  | some run =>
    have fraction := digits?_append (h.fraction run same) stops
    simp only [fractionText, List.cons_append, fraction, exponent, Option.bind_some]
    rw [← same]
    rfl
  | none =>
    rw [fractionText, List.nil_append]
    split
    · rename_i point
      exact absurd point (exponentText_ne _ _)
    · rw [exponent]
      simp only [Option.bind_some]
      rw [← same]
      rfl

theorem read?_render (h : n.Formed) : read? n.render = some n := by
  have behind := unsigned?_render h
  rw [render_eq]
  cases sign : n.negative with
  | true =>
    rw [if_pos rfl, List.cons_append, read?_negative]
    rwa [sign] at behind
  | false =>
    rw [if_neg Bool.false_ne_true, List.nil_append, read?_positive]
    · rwa [sign] at behind
    · intro tail signed
      obtain ⟨c, digits, whole⟩ := List.exists_cons_of_ne_nil h.whole.1
      rw [whole, List.cons_append] at signed
      exact h.whole.ne_cons rfl digits ((List.cons.inj signed).1 ▸ whole)

/-- Every character of a number is one that the scanner takes into it. -/
theorem isNumeralChar_of_mem_render (h : n.Formed) : ∀ c ∈ n.render, isNumeralChar c = true := by
  have digit {run : List Char} (digits : Digits run) : ∀ c ∈ run, isNumeralChar c = true := by
    intro c hc
    simp [isNumeralChar, digits.2 c hc]
  have behind : ∀ c ∈ exponentText n.exponent, isNumeralChar c = true := by
    match same : n.exponent with
    | none => exact nofun
    | some (true, run) =>
      exact List.forall_mem_cons.2 ⟨rfl, List.forall_mem_cons.2 ⟨rfl, digit (h.exponent _ _ same)⟩⟩
    | some (false, run) => exact List.forall_mem_cons.2 ⟨rfl, digit (h.exponent _ _ same)⟩
  have middle : ∀ c ∈ fractionText n.fraction, isNumeralChar c = true := by
    match same : n.fraction with
    | none => exact nofun
    | some run => exact List.forall_mem_cons.2 ⟨rfl, digit (h.fraction _ same)⟩
  have sign : ∀ c ∈ (if n.negative then ['-'] else []), isNumeralChar c = true := by
    cases n.negative <;> simp [isNumeralChar]
  rw [render_eq]
  exact List.forall_mem_append.2 ⟨sign, List.forall_mem_append.2
    ⟨digit h.whole, List.forall_mem_append.2 ⟨middle, behind⟩⟩⟩

theorem exists_head_render (h : n.Formed) :
    ∃ c tail, n.render = c :: tail ∧ (Text.isDigit c || c == '-') = true := by
  rw [render_eq]
  cases n.negative with
  | true => exact ⟨'-', _, rfl, rfl⟩
  | false =>
    obtain ⟨c, digits, whole⟩ := List.exists_cons_of_ne_nil h.whole.1
    have digit := h.whole.2 c (by simp [whole])
    rw [whole]
    exact ⟨c, _, rfl, by rw [digit]; rfl⟩

/-- Only zero begins with a zero. -/
theorem eq_zero_of_head_toDigits {k : Nat} (h : (Nat.toDigits 10 k).head? = some '0') : k = 0 := by
  induction k using Nat.strongRecOn with
  | _ k ih =>
    by_cases small : k < 10
    · rw [Nat.toDigits_of_lt_base small] at h
      have all : ∀ d < 10, [d.digitChar].head? = some '0' → d = 0 := by decide
      exact all k small h
    · obtain ⟨c, tail, front⟩ :=
        List.exists_cons_of_ne_nil (Nat.toDigits_ne_nil : Nat.toDigits 10 (k / 10) ≠ [])
      rw [Nat.toDigits_of_base_le (by decide) (Nat.le_of_not_lt small), front] at h
      have none : k / 10 = 0 := ih (k / 10) (by omega) (by rw [front]; exact h)
      omega

theorem formed_ofNat (k : Nat) : (ofNat k).Formed where
  whole := ⟨Nat.toDigits_ne_nil, fun _ hc => Nat.isDigit_of_mem_toDigits (by decide) (by decide) hc⟩
  leading zero := by
    have same : k = 0 := eq_zero_of_head_toDigits zero
    rw [same]
    rfl
  fraction := nofun
  exponent := nofun

end ChunkStore.Json.Numeral

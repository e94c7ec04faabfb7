import ChunkStore.Json.Token
import Mathlib.Algebra.Group.Nat.Defs

/-!
# Written texts and numbers, scanned

What the scanner of JSON makes of the characters that are written for a string or a number. A
character of a string is written as it is, by a letter after a backslash or by its code units,
and a writer may choose code units for any character that is not ASCII. In each of these ways
the scanner notes pieces that stand for this one character, whatever comes next to it, so a
string is read back as the text that it was written for.
-/

namespace ChunkStore

namespace Text

def Printed (c : Char) : Prop := 0x20 ≤ c.toNat ∧ c.toNat < 0x7F

instance (c : Char) : Decidable (Printed c) := inferInstanceAs (Decidable (_ ∧ _))

theorem Printed.ascii {c : Char} (h : Printed c) : c.toNat < 0x80 := Nat.lt_succ_of_lt h.2

theorem printed_of_isDigit {c : Char} (h : isDigit c = true) : Printed c := by
  simp only [isDigit, Bool.and_eq_true, decide_eq_true_eq, Char.le_def, UInt32.le_iff_toNat_le] at h
  have low : 48 ≤ c.toNat := h.1
  have high : c.toNat ≤ 57 := h.2
  exact ⟨by omega, by omega⟩

theorem hexValue_digitChar {d : Nat} (h : d < 16) : hexValue d.digitChar = d := by
  have all : ∀ d < 16, hexValue d.digitChar = d := by decide
  exact all d h

theorem exists_of_mem_hex {width n : Nat} {c : Char} (h : c ∈ hex width n) :
    ∃ d < 16, c = d.digitChar := by
  induction width generalizing n with
  | zero => cases h
  | succ width ih =>
    rw [hex, List.mem_append, List.mem_singleton] at h
    cases h with
    | inl before => exact ih before
    | inr last => exact ⟨n % 16, Nat.mod_lt n (by decide), last⟩

theorem isHexDigit_of_mem_hex {width n : Nat} {c : Char} (h : c ∈ hex width n) :
    isHexDigit c = true := by
  obtain ⟨d, hd, rfl⟩ := exists_of_mem_hex h
  have all : ∀ d < 16, isHexDigit d.digitChar = true := by decide
  exact all d hd

theorem printed_of_mem_hex {width n : Nat} {c : Char} (h : c ∈ hex width n) : Printed c := by
  obtain ⟨d, hd, rfl⟩ := exists_of_mem_hex h
  have all : ∀ d < 16, Printed d.digitChar := by decide
  exact all d hd

theorem length_hex (width n : Nat) : (hex width n).length = width := by
  induction width generalizing n with
  | zero => rfl
  | succ width ih => rw [hex, List.length_append, ih, List.length_singleton]

theorem value_hex {width n : Nat} (h : n < 16 ^ width) : value 16 (hex width n) = n := by
  induction width generalizing n with
  | zero =>
    have zero : n = 0 := by simpa using h
    rw [zero]
    rfl
  | succ width ih =>
    have less : n / 16 < 16 ^ width := Nat.div_lt_of_lt_mul (by rwa [Nat.pow_succ'] at h)
    have front : value 16 (hex width (n / 16)) = n / 16 := ih less
    rw [value] at front
    rw [hex, value, List.foldl_append, front, List.foldl_cons, List.foldl_nil,
      hexValue_digitChar (Nat.mod_lt n (by decide))]
    exact Nat.div_add_mod' n 16

end Text

namespace Json

/-- The scanner goes through these characters from one state to another and completes the
tokens on its way. -/
inductive Scans : Scan → List Char → List Token → Scan → Prop
  | nil (scan : Scan) : Scans scan [] [] scan
  | cons {scan next final : Scan} {c : Char} {cs : List Char} {here later : List Token}
      (step : stepChar c scan = some (here, next)) (further : Scans next cs later final) :
      Scans scan (c :: cs) (here ++ later) final

variable {scan next final : Scan} {c : Char} {cs ds : List Char} {ts us : List Token}

theorem Scans.single (step : stepChar c scan = some (ts, next)) : Scans scan [c] ts next := by
  have whole := Scans.cons step (.nil next)
  rwa [List.append_nil] at whole

theorem Scans.quiet (step : stepChar c scan = some ([], next)) (further : Scans next cs ts final) :
    Scans scan (c :: cs) ts final :=
  .cons step further

theorem Scans.append (h : Scans scan cs ts next) (h' : Scans next ds us final) :
    Scans scan (cs ++ ds) (ts ++ us) final := by
  induction h with
  | nil scan => exact h'
  | cons step _ ih =>
    rw [List.cons_append, List.append_assoc]
    exact .cons step (ih h')

/-- The tokens of a text are those that the scanner completes on its way through it, and the
one with which it stands at the end. -/
theorem Scans.tokensFrom (h : Scans scan cs ts next) (seen : List Token) {last : List Token}
    (ends : finish next = some last) :
    tokensFrom seen scan (cs.map .char) = some (seen.reverse ++ (ts ++ last)) := by
  induction h generalizing seen with
  | nil scan => rw [List.map_nil, Json.tokensFrom, ends, Option.map_some, List.nil_append]
  | cons first _ ih =>
    rw [List.map_cons, Json.tokensFrom, step, first]
    dsimp only
    rw [ih _ ends]
    simp

/-! ## Strings -/

/-- The pieces that stand for a character: itself, or its code units. -/
inductive Spells (c : Char) : List Piece → Prop
  | plain : Spells c [.char c]
  | coded : Spells c ((units c).map .unit)

/-- The pieces that stand for a text, character by character. -/
inductive SpellsText : List Char → List Piece → Prop
  | nil : SpellsText [] []
  | cons {c : Char} {cs : List Char} {here later : List Piece} (first : Spells c here)
      (further : SpellsText cs later) : SpellsText (c :: cs) (here ++ later)

theorem not_surrogate (c : Char) :
    isHighSurrogate c.toNat = false ∧ isLowSurrogate c.toNat = false := by
  have valid : c.toNat < 0xD800 ∨ 0xDFFF < c.toNat ∧ c.toNat < 0x110000 := c.valid
  simp only [isHighSurrogate, isLowSurrogate, Bool.and_eq_false_iff, decide_eq_false_iff_not]
  omega

theorem charsFrom_unit (seen : List Char) (c : Char) (rest : List Piece) :
    charsFrom seen (.unit c.toNat :: rest) = charsFrom (c :: seen) rest := by
  obtain ⟨high, low⟩ := not_surrogate c
  cases rest with
  | nil => simp [charsFrom, high, low]
  | cons piece rest =>
    cases piece with
    | char d => simp [charsFrom, high, low]
    | unit v => simp [charsFrom, high, low]
    | broken => simp [charsFrom, high, low]

/-- The two code units of a character beyond the first plane are a surrogate pair, from which
its code point is found again. -/
theorem charsFrom_pair (seen : List Char) {c : Char} (h : ¬c.toNat < 0x10000)
    (rest : List Piece) :
    charsFrom seen ((units c).map .unit ++ rest) = charsFrom (c :: seen) rest := by
  have valid : c.toNat < 0xD800 ∨ 0xDFFF < c.toNat ∧ c.toNat < 0x110000 := c.valid
  have high : isHighSurrogate (0xD800 + (c.toNat - 0x10000) / 0x400) = true := by
    simp only [isHighSurrogate, Bool.and_eq_true, decide_eq_true_eq]
    omega
  have low : isLowSurrogate (0xDC00 + (c.toNat - 0x10000) % 0x400) = true := by
    simp only [isLowSurrogate, Bool.and_eq_true, decide_eq_true_eq]
    omega
  have point : 0x10000 + (0xD800 + (c.toNat - 0x10000) / 0x400 - 0xD800) * 0x400 +
      (0xDC00 + (c.toNat - 0x10000) % 0x400 - 0xDC00) = c.toNat := by omega
  simp only [units, if_neg h, List.map_cons, List.map_nil, List.cons_append, List.nil_append,
    charsFrom, high, low, Bool.and_self, if_true]
  rw [point, Char.ofNat_toNat]

theorem Spells.charsFrom {pieces : List Piece} (h : Spells c pieces) (seen : List Char)
    (rest : List Piece) :
    charsFrom seen (pieces ++ rest) = charsFrom (c :: seen) rest := by
  cases h with
  | plain => rfl
  | coded =>
    by_cases first : c.toNat < 0x10000
    · rw [units, if_pos first]
      exact charsFrom_unit seen c rest
    · exact charsFrom_pair seen first rest

theorem SpellsText.charsFrom {pieces : List Piece} (h : SpellsText cs pieces) (seen : List Char) :
    charsFrom seen pieces = some (seen.reverse ++ cs) := by
  induction h generalizing seen with
  | nil => rw [Json.charsFrom, List.append_nil]
  | cons first _ ih =>
    rw [first.charsFrom, ih]
    simp

theorem SpellsText.textOf? {s : String} {pieces : List Piece} (h : SpellsText s.toList pieces) :
    textOf? pieces = some s := by
  rw [Json.textOf?, h.charsFrom]
  simp

/-- Every character is written as it is, or in ASCII. -/
def Writes (write : Char → List Char) : Prop := ∀ c, write c = [c] ∨ write c = asciiEscape c

theorem Writes.ascii {write : Char → List Char} (h : Writes write) {c : Char}
    (hc : c.toNat < 0x80) : write c = [c] := by
  cases h c with
  | inl plain => exact plain
  | inr escaped => rw [escaped, asciiEscape, if_pos hc]

theorem Writes.flatMap_ascii {write : Char → List Char} (h : Writes write) {cs : List Char}
    (hc : ∀ c ∈ cs, c.toNat < 0x80) : cs.flatMap write = cs := by
  induction cs with
  | nil => rfl
  | cons c cs ih =>
    rw [List.flatMap_cons, h.ascii (hc c (by simp)), ih fun d hd => hc d (by simp [hd])]
    rfl

theorem stepChar_backslash (before : List Piece) :
    stepChar '\\' (.within before) = some ([], .escaped before) := rfl

theorem stepChar_code (before : List Piece) :
    stepChar 'u' (.escaped before) = some ([], .code before []) := rfl

theorem stepChar_digit (h : Text.isHexDigit c = true) (before : List Piece) {digits : List Char}
    (few : digits.length < 3) :
    stepChar c (.code before digits) = some ([], .code before (c :: digits)) := by
  simp [stepChar, h, few]

theorem stepChar_lastDigit (h : Text.isHexDigit c = true) (before : List Piece)
    {digits : List Char} (enough : ¬digits.length < 3) :
    stepChar c (.code before digits) =
      some ([], .within (.unit (Text.value 16 (c :: digits).reverse) :: before)) := by
  rw [stepChar, h, if_neg enough]
  rfl

theorem scans_letter {e : Char} (known : escapeOf? e = some c) (other : e ≠ 'u')
    (before : List Piece) :
    Scans (.within before) ['\\', e] [] (.within (.char c :: before)) := by
  have step : stepChar e (.escaped before) = some ([], .within (.char c :: before)) := by
    rw [stepChar, if_neg other, known]
    rfl
  exact .quiet (stepChar_backslash before) (.single step)

theorem scans_unit {u : Nat} (h : u < 0x10000) (before : List Piece) :
    Scans (.within before) ('\\' :: 'u' :: Text.hex 4 u) [] (.within (.unit u :: before)) := by
  have digits : ∀ d ∈ Text.hex 4 u, Text.isHexDigit d = true :=
    fun d hd => Text.isHexDigit_of_mem_hex hd
  have named : Text.value 16 (Text.hex 4 u) = u := Text.value_hex h
  match four : Text.hex 4 u, Text.length_hex 4 u with
  | [a, b, c, d], _ =>
    rw [four] at digits named
    have last : stepChar d (.code before [c, b, a]) = some ([], .within (.unit u :: before)) := by
      rw [stepChar_lastDigit (digits d (by simp)) before (by simp)]
      exact congrArg (fun n => some ([], Scan.within (.unit n :: before))) named
    refine .quiet (stepChar_backslash before) (.quiet (stepChar_code before) ?_)
    refine .quiet (stepChar_digit (digits a (by simp)) before (by simp)) ?_
    refine .quiet (stepChar_digit (digits b (by simp)) before (by simp)) ?_
    refine .quiet (stepChar_digit (digits c (by simp)) before (by simp)) ?_
    exact .single last

theorem scans_plain (quote : c ≠ '"') (backslash : c ≠ '\\') (printed : ¬c.toNat < 0x20)
    (before : List Piece) :
    Scans (.within before) [c] [] (.within (.char c :: before)) := by
  apply Scans.single
  rw [stepChar, if_neg quote, if_neg backslash, if_neg printed]

theorem printed_of_mem_code {u : Nat} (h : c ∈ '\\' :: 'u' :: Text.hex 4 u) : Text.Printed c := by
  rcases List.mem_cons.1 h with rfl | h
  · decide
  rcases List.mem_cons.1 h with rfl | digit
  · decide
  · exact Text.printed_of_mem_hex digit

theorem scans_units (units : List Nat) (small : ∀ u ∈ units, u < 0x10000) (before : List Piece) :
    Scans (.within before) (units.flatMap fun u => '\\' :: 'u' :: Text.hex 4 u) []
      (.within ((units.map Piece.unit).reverse ++ before)) := by
  induction units generalizing before with
  | nil => exact .nil _
  | cons u units ih =>
    have first := scans_unit (small u (by simp)) before
    have rest := ih (fun v hv => small v (by simp [hv])) (.unit u :: before)
    have whole := first.append rest
    rw [List.flatMap_cons, List.map_cons, List.reverse_cons, List.append_assoc]
    exact whole

theorem units_lt (c : Char) : ∀ u ∈ units c, u < 0x10000 := by
  have valid : c.toNat < 0xD800 ∨ 0xDFFF < c.toNat ∧ c.toNat < 0x110000 := c.valid
  intro u hu
  unfold units at hu
  dsimp only at hu
  split at hu
  · have same : u = c.toNat := List.mem_singleton.1 hu
    omega
  · simp only [List.mem_cons, List.not_mem_nil, or_false] at hu
    omega

/-- A character that is not escaped in JSON is scanned as itself, or in the writer's code units
as these. -/
theorem scans_write {write : Char → List Char} (h : Writes write) (quote : c ≠ '"')
    (backslash : c ≠ '\\') (printed : ¬c.toNat < 0x20) :
    ∃ pieces, Spells c pieces ∧ ∀ before,
      Scans (.within before) (write c) [] (.within (pieces.reverse ++ before)) := by
  have whole : ∃ pieces, Spells c pieces ∧ ∀ before,
      Scans (.within before) [c] [] (.within (pieces.reverse ++ before)) :=
    ⟨_, .plain, scans_plain quote backslash printed⟩
  cases h c with
  | inl plain =>
    rw [plain]
    exact whole
  | inr escaped =>
    rw [escaped, asciiEscape]
    split
    · exact whole
    · exact ⟨_, .coded, scans_units (units c) (units_lt c)⟩

/-- How a character stands in a string: behind a backslash by a letter, by its digits, or as it
is. -/
inductive Escaped (c : Char) : List Char → Prop
  | letter {e : Char} (known : escapeOf? e = some c) (other : e ≠ 'u') (printed : Text.Printed e) :
      Escaped c ['\\', e]
  | digits (control : c.toNat < 0x20) : Escaped c ('\\' :: 'u' :: Text.hex 4 c.toNat)
  | whole (quote : c ≠ '"') (backslash : c ≠ '\\') (printed : ¬c.toNat < 0x20) : Escaped c [c]

theorem escaped_escape (c : Char) : Escaped c (escape c) := by
  have letter {d e : Char} (same : c = d) (known : escapeOf? e = some d) (other : e ≠ 'u')
      (printed : Text.Printed e) : Escaped c ['\\', e] :=
    .letter (same ▸ known) other printed
  have numbered {n : Nat} (h : c.toNat = n) : c = Char.ofNat n := by
    rw [← h]
    exact (Char.ofNat_toNat c).symm
  unfold escape
  split
  · exact letter ‹_› rfl (by decide) (by decide)
  split
  · exact letter ‹_› rfl (by decide) (by decide)
  split
  · exact letter ‹_› rfl (by decide) (by decide)
  split
  · exact letter ‹_› rfl (by decide) (by decide)
  split
  · exact letter ‹_› rfl (by decide) (by decide)
  split
  · exact letter (numbered ‹_›) rfl (by decide) (by decide)
  split
  · exact letter (numbered ‹_›) rfl (by decide) (by decide)
  split
  · exact .digits ‹_›
  · exact .whole ‹_› ‹_› ‹_›

/-- Whatever a writer makes of a character of a string, the scanner takes it for this
character. -/
theorem scans_escape {write : Char → List Char} (h : Writes write) (c : Char) :
    ∃ pieces, Spells c pieces ∧ ∀ before,
      Scans (.within before) ((escape c).flatMap write) []
        (.within (pieces.reverse ++ before)) := by
  have written := escaped_escape c
  generalize escape c = cs at written ⊢
  cases written with
  | @letter e known other printed =>
    have same : ['\\', e].flatMap write = ['\\', e] := by
      apply h.flatMap_ascii
      simp [printed.ascii]
    rw [same]
    exact ⟨_, .plain, scans_letter known other⟩
  | digits control =>
    have same : ('\\' :: 'u' :: Text.hex 4 c.toNat).flatMap write =
        '\\' :: 'u' :: Text.hex 4 c.toNat := by
      apply h.flatMap_ascii
      exact fun d hd => (printed_of_mem_code hd).ascii
    have coded : units c = [c.toNat] := if_pos (by omega)
    rw [same]
    refine ⟨_, .coded, fun before => ?_⟩
    rw [coded]
    exact scans_unit (by omega) before
  | whole quote backslash printed =>
    have same : [c].flatMap write = write c := List.append_nil _
    rw [same]
    exact scans_write h quote backslash printed

theorem scans_text {write : Char → List Char} (h : Writes write) (cs : List Char) :
    ∃ pieces, SpellsText cs pieces ∧ ∀ before,
      Scans (.within before) (cs.flatMap fun c => (escape c).flatMap write) []
        (.within (pieces.reverse ++ before)) := by
  induction cs with
  | nil => exact ⟨[], .nil, fun before => .nil _⟩
  | cons c cs ih =>
    obtain ⟨here, first, scanned⟩ := scans_escape h c
    obtain ⟨later, further, rest⟩ := ih
    refine ⟨here ++ later, .cons first further, fun before => ?_⟩
    rw [List.flatMap_cons, List.reverse_append, List.append_assoc]
    exact (scanned before).append (rest _)

/-- A string is one token, and its text is the one that was written. -/
theorem scans_quote {write : Char → List Char} (h : Writes write) (s : String) :
    Scans .between ((quote s).flatMap write) [.string (some s)] .between := by
  obtain ⟨pieces, spelled, scanned⟩ := scans_text h s.toList
  have mark : write '"' = ['"'] := h.ascii (by decide)
  have written : (quote s).flatMap write =
      '"' :: ((s.toList.flatMap fun c => (escape c).flatMap write) ++ ['"']) := by
    rw [quote, List.cons_append, List.flatMap_cons, List.flatMap_append, List.flatMap_assoc,
      List.flatMap_singleton, mark]
    rfl
  have ends : stepChar '"' (.within (pieces.reverse ++ [])) =
      some ([.string (some s)], .between) := by
    rw [List.append_nil, stepChar, if_pos rfl, List.reverse_reverse, spelled.textOf?]
  rw [written]
  exact .quiet rfl ((scanned []).append (.single ends))

theorem printed_of_isNumeralChar (h : isNumeralChar c = true) : Text.Printed c := by
  simp only [isNumeralChar, Bool.or_eq_true, beq_iff_eq] at h
  rcases h with ((((digit | rfl) | rfl) | rfl) | rfl) | rfl
  · exact Text.printed_of_isDigit digit
  all_goals decide

end Json

end ChunkStore

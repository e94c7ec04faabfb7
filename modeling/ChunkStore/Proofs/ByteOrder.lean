import ChunkStore.Text.Utf8

/-!
# The order of names is that of their bytes

Names are compared character by character. A character with a greater code point is also
written with greater bytes: in a longer encoding the first byte is greater already, and in
one of the same length the first byte that differs decides. So the order of names is the
order in which a service that compares bytes lists them.
-/

namespace ChunkStore

/-- What two lists begin with does not count. -/
theorem compare_append {α : Type} [Ord α] [Std.ReflOrd α] (front first second : List α) :
    compare (front ++ first) (front ++ second) = compare first second := by
  induction front with
  | nil => rfl
  | cons a front ih =>
    rw [List.cons_append, List.cons_append, List.compare_cons_cons, Std.ReflOrd.compare_self, ih]
    rfl

namespace Text

theorem codePoint_le (c : Char) : c.val.toNat ≤ 0x10FFFF := by
  have valid := c.valid
  simp only [UInt32.isValidChar, Nat.isValidChar] at valid
  omega

theorem compare_ofNat_cons {x y : Nat} (hy : y < 256) (le : x ≤ y) {first second : Bytes}
    (tail : x = y → compare first second = .lt) :
    compare (UInt8.ofNat x :: first) (UInt8.ofNat y :: second) = .lt := by
  rw [List.compare_cons_cons, Ordering.then_eq_lt]
  rcases Nat.lt_or_eq_of_le le with less | same
  · left
    apply Std.compare_eq_lt.2
    rw [UInt8.lt_iff_toNat_lt, UInt8.toNat_ofNat', UInt8.toNat_ofNat']
    omega
  · right
    rw [same]
    exact ⟨Std.ReflCmp.compare_self, tail same⟩

/-- Of two characters the lesser has the lesser encoding, whatever follows. -/
theorem compare_utf8EncodeChar {c d : Char} (h : c < d) (first second : Bytes) :
    compare (String.utf8EncodeChar c ++ first) (String.utf8EncodeChar d ++ second) = .lt := by
  have hc := codePoint_le c
  have hd := codePoint_le d
  have less : c.val.toNat < d.val.toNat := h
  unfold String.utf8EncodeChar
  dsimp only
  generalize c.val.toNat = m at *
  generalize d.val.toNat = n at *
  -- One case for each pair of lengths. The first byte tells the lengths apart.
  repeat' split
  all_goals
    first
    | omega
    | repeat (refine compare_ofNat_cons (by omega) (by omega) fun _ => ?_)
      omega

theorem bytes_ofList (cs : List Char) :
    bytes (String.ofList cs) = cs.flatMap String.utf8EncodeChar := by
  rw [bytes, String.toByteArray_ofList, List.utf8Encode, List.data_toByteArray]

theorem compare_flatMap_utf8 {cs ds : List Char} (h : cs < ds) :
    compare (cs.flatMap String.utf8EncodeChar) (ds.flatMap String.utf8EncodeChar) = .lt := by
  induction h with
  | @nil d ds =>
    rw [List.flatMap_nil, List.flatMap_cons]
    cases he : String.utf8EncodeChar d with
    | nil => exact absurd he String.utf8EncodeChar_ne_nil
    | cons b bs => rfl
  | rel less =>
    rw [List.flatMap_cons, List.flatMap_cons]
    exact compare_utf8EncodeChar less _ _
  | @cons c cs ds _ ih =>
    rw [List.flatMap_cons, List.flatMap_cons]
    rwa [compare_append]

theorem compare_bytes_of_lt {a b : String} (h : a < b) : compare (bytes a) (bytes b) = .lt := by
  rw [← String.ofList_toList (s := a), ← String.ofList_toList (s := b), bytes_ofList, bytes_ofList]
  exact compare_flatMap_utf8 h

/-- The bytes of two texts compare as the texts do. -/
theorem compare_bytes (a b : String) : compare (bytes a) (bytes b) = compare a b := by
  cases order : compare a b with
  | lt => exact compare_bytes_of_lt (compareOfLessAndEq_eq_lt.1 order)
  | eq =>
    rw [Std.LawfulEqOrd.eq_of_compare order]
    exact Std.ReflOrd.compare_self
  | gt =>
    have turned : compare b a = .lt := Std.OrientedCmp.gt_iff_lt.1 order
    exact Std.OrientedCmp.gt_iff_lt.2 (compare_bytes_of_lt (compareOfLessAndEq_eq_lt.1 turned))

theorem compare_map_bytes (names others : List String) :
    compare (names.map bytes) (others.map bytes) = compare names others := by
  induction names generalizing others with
  | nil => cases others <;> rfl
  | cons name names ih =>
    cases others with
    | nil => rfl
    | cons other others =>
      simp only [List.map_cons, List.compare_cons_cons, compare_bytes, ih]

end Text

end ChunkStore

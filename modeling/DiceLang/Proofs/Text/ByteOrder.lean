import Mathlib

/-! The order of texts is that of their bytes: the code of a character never is the beginning of another
one's, and grows with the character. -/

namespace DiceLang.Text

def bytes (s : String) : List UInt8 := s.toByteArray.data.toList

lemma bytes_eq_flatMap (s : String) : bytes s = s.toList.flatMap String.utf8EncodeChar := by
  rw [bytes, ← String.utf8Encode_toList, List.utf8Encode]
  simp

lemma bytes_injective : Function.Injective bytes := by
  intro a b h
  apply String.toByteArray_inj.mp
  apply ByteArray.ext
  exact Array.toList_inj.mp h

lemma compare_cons_of_lt {a b : Nat} (h : a < b) (hb : b < 256) (xs ys : List UInt8) :
    compare (UInt8.ofNat a :: xs) (UInt8.ofNat b :: ys) = .lt := by
  have hlt : UInt8.ofNat a < UInt8.ofNat b := by
    rw [UInt8.lt_iff_toNat_lt, UInt8.toNat_ofNat_of_lt' (h.trans hb), UInt8.toNat_ofNat_of_lt' hb]
    exact h
  have hfirst : compare (UInt8.ofNat a) (UInt8.ofNat b) = .lt := compareOfLessAndEq_eq_lt.mpr hlt
  rw [List.compare_cons_cons, hfirst]
  rfl

lemma compare_cons_of_eq {a b : Nat} (h : a = b) (xs ys : List UInt8) :
    compare (UInt8.ofNat a :: xs) (UInt8.ofNat b :: ys) = compare xs ys := by
  rw [List.compare_cons_cons, h, Std.ReflOrd.compare_self]
  rfl

def digit (n : Nat) : UInt8 := UInt8.ofNat (n % 64 + 0x80)

variable {v w : Nat}

lemma compare_digit (h : v < w) (hq : v / 64 = w / 64) (xs ys : List UInt8) :
    compare (digit v :: xs) (digit w :: ys) = .lt :=
  compare_cons_of_lt (by omega) (by omega) _ _

lemma compare_two_digits (h : v < w) (hq : v / 4096 = w / 4096) (xs ys : List UInt8) :
    compare (digit (v / 64) :: digit v :: xs) (digit (w / 64) :: digit w :: ys) = .lt := by
  rcases Nat.lt_or_eq_of_le (Nat.div_le_div_right h.le : v / 64 ≤ w / 64) with hlt | heq
  · exact compare_digit hlt (by omega) _ _
  · refine (compare_cons_of_eq (by rw [heq]) _ _).trans ?_
    exact compare_digit h heq _ _

lemma compare_three_digits (h : v < w) (hq : v / 262144 = w / 262144) (xs ys : List UInt8) :
    compare (digit (v / 4096) :: digit (v / 64) :: digit v :: xs)
      (digit (w / 4096) :: digit (w / 64) :: digit w :: ys) = .lt := by
  rcases Nat.lt_or_eq_of_le (Nat.div_le_div_right h.le : v / 4096 ≤ w / 4096) with hlt | heq
  · exact compare_digit hlt (by omega) _ _
  · refine (compare_cons_of_eq (by rw [heq]) _ _).trans ?_
    exact compare_two_digits h heq _ _

lemma compare_utf8EncodeChar {c d : Char} (h : c < d) (xs ys : List UInt8) :
    compare (String.utf8EncodeChar c ++ xs) (String.utf8EncodeChar d ++ ys) = .lt := by
  have hd : d.val.toNat < 0x110000 := by
    have hvalid := d.valid
    simp only [UInt32.isValidChar, Nat.isValidChar] at hvalid
    omega
  have hlt : c.val.toNat < d.val.toNat := h
  unfold String.utf8EncodeChar
  generalize c.val.toNat = v at hlt
  generalize d.val.toNat = w at hlt hd
  dsimp only
  -- A longer code has a greater first byte. Codes of one length are compared digit by digit.
  by_cases hv₁ : v ≤ 0x7f
  · rw [if_pos hv₁]
    split
    · exact compare_cons_of_lt hlt (by omega) _ _
    · split
      · exact compare_cons_of_lt (by omega) (by omega) _ _
      · split <;> exact compare_cons_of_lt (by omega) (by omega) _ _
  rw [if_neg hv₁, if_neg (show ¬w ≤ 0x7f by omega)]
  by_cases hv₂ : v ≤ 0x7ff
  · rw [if_pos hv₂]
    split
    · rcases Nat.lt_or_eq_of_le (Nat.div_le_div_right hlt.le : v / 64 ≤ w / 64) with hq | hq
      · exact compare_cons_of_lt (by omega) (by omega) _ _
      · exact (compare_cons_of_eq (by rw [hq]) _ _).trans (compare_digit hlt hq _ _)
    · split <;> exact compare_cons_of_lt (by omega) (by omega) _ _
  rw [if_neg hv₂, if_neg (show ¬w ≤ 0x7ff by omega)]
  by_cases hv₃ : v ≤ 0xffff
  · rw [if_pos hv₃]
    split
    · rcases Nat.lt_or_eq_of_le (Nat.div_le_div_right hlt.le : v / 4096 ≤ w / 4096) with hq | hq
      · exact compare_cons_of_lt (by omega) (by omega) _ _
      · exact (compare_cons_of_eq (by rw [hq]) _ _).trans (compare_two_digits hlt hq _ _)
    · exact compare_cons_of_lt (by omega) (by omega) _ _
  rw [if_neg hv₃, if_neg (show ¬w ≤ 0xffff by omega)]
  rcases Nat.lt_or_eq_of_le (Nat.div_le_div_right hlt.le : v / 262144 ≤ w / 262144) with hq | hq
  · exact compare_cons_of_lt (by omega) (by omega) _ _
  · exact (compare_cons_of_eq (by rw [hq]) _ _).trans (compare_three_digits hlt hq _ _)

lemma compare_append_left (l xs ys : List UInt8) : compare (l ++ xs) (l ++ ys) = compare xs ys := by
  induction l with
  | nil => rfl
  | cons a l ih =>
    rw [List.cons_append, List.cons_append, List.compare_cons_cons, Std.ReflOrd.compare_self, ih]
    rfl

lemma compare_flatMap_of_lt {l m : List Char} (h : l < m) :
    compare (l.flatMap String.utf8EncodeChar) (m.flatMap String.utf8EncodeChar) = .lt := by
  induction h with
  | @nil c m =>
    obtain ⟨a, as, hc⟩ := List.exists_cons_of_ne_nil (String.utf8EncodeChar_ne_nil (c := c))
    rw [List.flatMap_cons, hc]
    exact List.compare_nil_cons
  | cons _ ih =>
    rw [List.flatMap_cons, List.flatMap_cons, compare_append_left]
    exact ih
  | rel h => exact compare_utf8EncodeChar h _ _

lemma compare_bytes_of_lt {a b : String} (h : a < b) : compare (bytes a) (bytes b) = .lt := by
  rw [bytes_eq_flatMap, bytes_eq_flatMap]
  exact compare_flatMap_of_lt h

lemma compare_eq_compare_bytes (a b : String) : compare a b = compare (bytes a) (bytes b) := by
  rcases lt_trichotomy a b with h | rfl | h
  · rw [compare_bytes_of_lt h]
    exact compareOfLessAndEq_eq_lt.mpr h
  · rw [Std.ReflOrd.compare_self, Std.ReflOrd.compare_self]
  · rw [Std.OrientedOrd.eq_swap (a := a), Std.OrientedOrd.eq_swap (a := bytes a),
      compare_bytes_of_lt h]
    exact congrArg Ordering.swap (compareOfLessAndEq_eq_lt.mpr h)

end DiceLang.Text

import Mathlib.Data.Rat.Floor
import Mathlib.Tactic.Linarith
import DiceLang.Number

/-! Division that rounds down, made of division that rounds towards zero. -/

namespace DiceLang

structure Floored (x y q r : ℤ) : Prop where
  equation : y * q + r = x
  small : r.natAbs < y.natAbs
  sign : r ≠ 0 → (r < 0 ↔ y < 0)

variable {x y q r : ℤ}

lemma Floored.between (h : Floored x y q r) : 0 < y ∧ 0 ≤ r ∧ r < y ∨ y < 0 ∧ y < r ∧ r ≤ 0 := by
  have hsmall := h.small
  have hsign := h.sign
  omega

lemma Floored.eq_floor (h : Floored x y q r) : q = ⌊(x : ℚ) / y⌋ := by
  symm
  rw [Int.floor_eq_iff, ← h.equation]
  push_cast
  rcases h.between with ⟨hy, h0, hlt⟩ | ⟨hy, hlt, h0⟩
  · have hpos : (0 : ℚ) < y := by exact_mod_cast hy
    rw [le_div_iff₀ hpos, div_lt_iff₀ hpos]
    constructor <;> norm_cast <;> linarith [mul_comm q y, add_mul q 1 y]
  · have hneg : (y : ℚ) < 0 := by exact_mod_cast hy
    rw [le_div_iff_of_neg hneg, div_lt_iff_of_neg hneg]
    constructor <;> norm_cast <;> linarith [mul_comm q y, add_mul q 1 y]

def Overshoots (x y : ℤ) : Prop := x.tmod y ≠ 0 ∧ (x < 0 ↔ ¬ y < 0)

lemma sign_tmod (hr : x.tmod y ≠ 0) : x.tmod y < 0 ↔ x < 0 := by
  rcases le_or_gt 0 x with hx | hx
  · have hle := Int.tmod_nonneg y hx
    omega
  · have hle := Int.tmod_nonneg y (Int.neg_nonneg_of_nonpos hx.le)
    rw [Int.neg_tmod] at hle
    omega

lemma natAbs_tmod_lt (hy : y ≠ 0) : (x.tmod y).natAbs < y.natAbs := by
  rw [Int.natAbs_tmod]
  exact Nat.mod_lt _ (Int.natAbs_pos.mpr hy)

lemma floored_of_overshoots (hy : y ≠ 0) (h : Overshoots x y) :
    Floored x y (x.tdiv y - 1) (x.tmod y + y) := by
  have hdiv := Int.mul_tdiv_add_tmod x y
  have hsign := sign_tmod h.1
  have hlt := natAbs_tmod_lt (x := x) hy
  obtain ⟨hne, hopposite⟩ := h
  refine ⟨by linarith [mul_sub y (x.tdiv y) 1], ?_, ?_⟩ <;> omega

lemma floored_of_not_overshoots (hy : y ≠ 0) (h : ¬ Overshoots x y) :
    Floored x y (x.tdiv y) (x.tmod y) := by
  refine ⟨Int.mul_tdiv_add_tmod x y, natAbs_tmod_lt hy, fun hne => ?_⟩
  rw [sign_tmod hne]
  have hsame : ¬ (x < 0 ↔ ¬ y < 0) := fun hopposite => h ⟨hne, hopposite⟩
  omega

variable {a b : Int64}

lemma toInt_ofInt_iff {z : ℤ} : (Int64.ofInt z).toInt = z ↔ -2 ^ 63 ≤ z ∧ z < 2 ^ 63 := by
  constructor
  · intro heq
    rw [← heq]
    exact ⟨Int64.le_toInt _, Int64.toInt_lt _⟩
  · rintro ⟨hle, hlt⟩
    exact Int64.toInt_ofInt_of_le hle hlt

lemma div_eq_ofInt (a b : Int64) : a / b = .ofInt (a.toInt.tdiv b.toInt) := by
  rw [← Int64.toInt_inj, Int64.toInt_div, Int64.toInt_ofInt]

lemma mod_eq_ofInt (a b : Int64) : a % b = .ofInt (a.toInt.tmod b.toInt) := by
  rw [← Int64.toInt_mod, Int64.ofInt_toInt]

lemma neg_iff_toInt : a < 0 ↔ a.toInt < 0 := Int64.lt_iff_toInt_lt

lemma ne_zero_iff_toInt : a ≠ 0 ↔ a.toInt ≠ 0 := not_congr Int64.toInt_inj.symm

lemma overshoots_iff :
    Overshoots a.toInt b.toInt ↔ a % b ≠ 0 ∧ decide (a < 0) ≠ decide (b < 0) := by
  rw [Overshoots, ne_zero_iff_toInt, Int64.toInt_mod, ne_eq (decide _), decide_eq_decide, neg_iff_toInt,
    neg_iff_toInt]
  tauto

lemma overshoots_iff_mod :
    Overshoots a.toInt b.toInt ↔ a % b ≠ 0 ∧ decide (a % b < 0) ≠ decide (b < 0) := by
  rw [overshoots_iff, ne_eq (decide _), ne_eq (decide _), decide_eq_decide, decide_eq_decide]
  refine and_congr_right fun hne => ?_
  rw [ne_zero_iff_toInt, Int64.toInt_mod] at hne
  rw [neg_iff_toInt (a := a % b), Int64.toInt_mod, sign_tmod hne, ← neg_iff_toInt]

lemma exists_floored (a : Int64) (hb : b ≠ 0) : ∃ q r, Floored a.toInt b.toInt q r ∧
    floorDiv a b = .ofInt q ∧ floorMod a b = .ofInt r := by
  rw [ne_zero_iff_toInt] at hb
  by_cases h : Overshoots a.toInt b.toInt
  · refine ⟨_, _, floored_of_overshoots hb h, ?_, ?_⟩
    · rw [floorDiv, if_pos (overshoots_iff.mp h), Int64.ofInt_sub, ← div_eq_ofInt]
      rfl
    · rw [floorMod, if_pos (overshoots_iff_mod.mp h), Int64.ofInt_add, ← mod_eq_ofInt, Int64.ofInt_toInt]
  · refine ⟨_, _, floored_of_not_overshoots hb h, ?_, ?_⟩
    · rw [floorDiv, if_neg (overshoots_iff.not.mp h), ← div_eq_ofInt]
    · rw [floorMod, if_neg (overshoots_iff_mod.not.mp h), ← mod_eq_ofInt]

lemma Floored.toInt_remainder (h : Floored a.toInt b.toInt q r) : (Int64.ofInt r).toInt = r := by
  have hle := b.le_toInt
  have hlt := b.toInt_lt
  have hbetween := h.between
  exact toInt_ofInt_iff.mpr (by omega)

lemma Floored.toInt_quotient (h : Floored a.toInt b.toInt q r) :
    (Int64.ofInt q).toInt = q ↔ ¬ (a.toInt = -2 ^ 63 ∧ b.toInt = -1) := by
  have hale := a.le_toInt
  have halt := a.toInt_lt
  have hequation := h.equation
  generalize a.toInt = x at *
  generalize b.toInt = y at *
  rw [toInt_ofInt_iff]
  constructor
  · rintro ⟨-, hlt⟩ ⟨rfl, rfl⟩
    have hbetween := h.between
    omega
  · intro hextreme
    rcases h.between with ⟨hy, h0, hr⟩ | ⟨hy, hr, h0⟩
    · constructor <;> by_contra hout <;> nlinarith
    · constructor
      · by_contra hout
        nlinarith
      · by_contra hout
        have hone : y = -1 := by
          by_contra hne
          have htwo : y ≤ -2 := by omega
          nlinarith
        subst hone
        exact hextreme ⟨by omega, rfl⟩

lemma ne_neg_one_of_overshoots (h : Overshoots a.toInt b.toInt) : b ≠ -1 := by
  rintro rfl
  apply h.1
  show a.toInt.tmod (-1) = 0
  rw [Int.tmod_neg, Int.tmod_one]

lemma toInt_quotient_corrected (hb : b ≠ 0) (h : Overshoots a.toInt b.toInt) :
    (a / b - 1).toInt = (a / b).toInt - 1 := by
  have hne := ne_neg_one_of_overshoots h
  have hfloored := floored_of_overshoots (ne_zero_iff_toInt.mp hb) h
  have hfits := hfloored.toInt_quotient.mpr fun hextreme => hne (Int64.toInt_inj.mp hextreme.2)
  rw [Int64.ofInt_sub, ← div_eq_ofInt] at hfits
  rw [Int64.toInt_div_of_ne_right a b hne]
  exact hfits

lemma toInt_remainder_corrected (hb : b ≠ 0) (h : Overshoots a.toInt b.toInt) :
    (a % b + b).toInt = (a % b).toInt + b.toInt := by
  have hfits := (floored_of_overshoots (ne_zero_iff_toInt.mp hb) h).toInt_remainder
  rw [Int64.ofInt_add, ← mod_eq_ofInt, Int64.ofInt_toInt] at hfits
  rw [hfits, Int64.toInt_mod]

lemma apply?_eq_none_iff (op : Arithmetic) :
    op.apply? a b = none ↔ (op = .div ∨ op = .mod) ∧ b = 0 := by
  cases op <;> simp [ Arithmetic.apply?]

/-- Arithmetic fails only where a divisor is zero. Otherwise the quotient is rounded down and then reduced to
64 bits, which makes a difference for one pair of operands only. The remainder is exact, the corrections do
not wrap, and in arithmetic that wraps both results make up the dividend again. -/
theorem arithmetic_floored (a b : Int64) :
    (∀ op : Arithmetic, op.apply? a b = none ↔ (op = .div ∨ op = .mod) ∧ b = 0) ∧
    (b ≠ 0 → ∃ q r : Int64, Arithmetic.div.apply? a b = some q ∧ Arithmetic.mod.apply? a b = some r ∧
      q = .ofInt ⌊(a.toInt : ℚ) / b.toInt⌋ ∧
      (q.toInt ≠ ⌊(a.toInt : ℚ) / b.toInt⌋ ↔ a = Int64.minValue ∧ b = -1) ∧
      r.toInt = a.toInt - b.toInt * ⌊(a.toInt : ℚ) / b.toInt⌋ ∧
      (r = 0 ∨ (r < 0 ↔ b < 0)) ∧ r.toInt.natAbs < b.toInt.natAbs ∧
      (a % b ≠ 0 → decide (a < 0) ≠ decide (b < 0) → (a / b - 1).toInt = (a / b).toInt - 1) ∧
      (a % b ≠ 0 → decide (a % b < 0) ≠ decide (b < 0) →
        (a % b + b).toInt = (a % b).toInt + b.toInt) ∧
      a = b * q + r) := by
  refine ⟨apply?_eq_none_iff, fun hb => ?_⟩
  obtain ⟨q, r, h, hdiv, hmod⟩ := exists_floored a hb
  have hr := h.toInt_remainder
  refine ⟨floorDiv a b, floorMod a b, if_neg hb, if_neg hb, ?_, ?_, ?_, ?_, ?_, ?_, ?_, ?_⟩
  · rw [hdiv, h.eq_floor]
  · have hextreme : a = Int64.minValue ∧ b = -1 ↔ a.toInt = -2 ^ 63 ∧ b.toInt = -1 :=
      and_congr Int64.toInt_inj.symm Int64.toInt_inj.symm
    rw [hdiv, ← h.eq_floor, hextreme, Ne, h.toInt_quotient, not_not]
  · rw [hmod, hr, ← h.eq_floor, ← h.equation]
    ring
  · rw [hmod, neg_iff_toInt, neg_iff_toInt, hr, ← Int64.toInt_inj, hr]
    exact or_iff_not_imp_left.mpr h.sign
  · rw [hmod, hr]
    exact h.small
  · exact fun hne hopposite => toInt_quotient_corrected hb (overshoots_iff.mpr ⟨hne, hopposite⟩)
  · exact fun hne hopposite => toInt_remainder_corrected hb (overshoots_iff_mod.mpr ⟨hne, hopposite⟩)
  · rw [hdiv, hmod]
    nth_rewrite 1 [← Int64.ofInt_toInt a, ← h.equation]
    rw [Int64.ofInt_add, Int64.ofInt_mul, Int64.ofInt_toInt]

theorem least_number_divided :
    (-1 : Int64) ≠ 0 ∧ Arithmetic.div.apply? Int64.minValue (-1) = some Int64.minValue ∧
      Arithmetic.mod.apply? Int64.minValue (-1) = some 0 ∧
      (∃ q : Int64, Arithmetic.div.apply? Int64.minValue (-1) = some q ∧
        q.toInt ≠ ⌊(Int64.minValue.toInt : ℚ) / (-1 : Int64).toInt⌋) ∧
      (7 : Int64) ≠ 0 ∧ (Int64.minValue % 7 + 7).toInt = (Int64.minValue % 7).toInt + (7 : Int64).toInt := by
  have hneg : (-1 : Int64) ≠ 0 := by decide
  have hseven : (7 : Int64) ≠ 0 := by decide
  obtain ⟨q, -, hq, -, -, hwraps, -⟩ := (arithmetic_floored Int64.minValue (-1)).2 hneg
  obtain ⟨-, -, -, -, -, -, -, -, -, -, hcorrected, -⟩ := (arithmetic_floored Int64.minValue 7).2 hseven
  exact ⟨hneg, by decide, by decide, ⟨q, hq, hwraps.mpr ⟨rfl, rfl⟩⟩, hseven,
    hcorrected (by decide) (by decide)⟩

end DiceLang

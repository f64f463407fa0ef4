import DiceLang.Dice
import Mathlib.Algebra.Order.Floor.Div
import Mathlib.Order.Interval.Finset.Nat
import Mathlib.Tactic.Lemma

/-! Dice are fair. Among the draws that are accepted for a number below `n`, each number is given by equally
many, and a throw shows the face of the first draw that is accepted. -/

namespace DiceLang

namespace Generator

variable {bits n k draw : Nat}

def leadingZeros (bits n : Nat) : Nat := (BitVec.ofNat bits n).clz.toNat

lemma leadingZeros_eq (hpos : 0 < n) (hn : n < 2 ^ bits) :
    leadingZeros bits n = bits - 1 - n.log2 := by
  have hbits : 0 < bits := Nat.pos_of_ne_zero fun hzero => by
    rw [hzero] at hn
    omega
  have htoNat : (BitVec.ofNat bits n).toNat = n := by rw [BitVec.toNat_ofNat, Nat.mod_eq_of_lt hn]
  have hne : BitVec.ofNat bits n ≠ BitVec.ofNat bits 0 := fun heq => by
    rw [heq, BitVec.toNat_zero] at htoNat
    omega
  have hlower := BitVec.two_pow_sub_clz_le_toNat_of_ne_zero hbits hne
  have hupper := BitVec.toNat_lt_two_pow_sub_clz (x := BitVec.ofNat bits n)
  rw [htoNat] at hlower hupper
  rw [← Nat.le_log2 hpos.ne'] at hlower
  rw [← Nat.log2_lt hpos.ne'] at hupper
  rw [leadingZeros]
  omega

def accepted (bits n : Nat) : Nat := n * 2 ^ leadingZeros bits n

lemma accepted_pos (hpos : 0 < n) : 0 < accepted bits n := Nat.mul_pos hpos (Nat.two_pow_pos _)

lemma accepted_le (hpos : 0 < n) (hn : n < 2 ^ bits) : accepted bits n ≤ 2 ^ bits := by
  have hlog := (Nat.log2_lt hpos.ne').mpr hn
  have hlt : n < 2 ^ (n.log2 + 1) := (Nat.log2_lt hpos.ne').mp (Nat.lt_succ_self _)
  calc accepted bits n
      = n * 2 ^ (bits - 1 - n.log2) := by rw [accepted, leadingZeros_eq hpos hn]
    _ ≤ 2 ^ (n.log2 + 1) * 2 ^ (bits - 1 - n.log2) := Nat.mul_le_mul_right _ hlt.le
    _ = 2 ^ bits := by rw [← Nat.pow_add]; congr 1; omega

lemma zone_eq (hpos : 0 < n) (hn : n < 2 ^ bits) : zone bits n = accepted bits n - 1 := by
  rw [zone, accepted, leadingZeros_eq hpos hn, Nat.shiftLeft_eq]

lemma reduce_eq_some_iff (hpos : 0 < n) (hn : n < 2 ^ bits) : reduce bits n draw = some k ↔
    k * 2 ^ bits ≤ draw * n ∧ draw * n < k * 2 ^ bits + accepted bits n := by
  have hacc : 0 < accepted bits n := accepted_pos hpos
  have hle := accepted_le hpos hn
  have hdiv := Nat.div_add_mod' (draw * n) (2 ^ bits)
  have hmod := Nat.mod_lt (draw * n) (Nat.two_pow_pos bits)
  rw [reduce, zone_eq hpos hn, Nat.one_shiftLeft, Nat.shiftRight_eq_div_pow]
  constructor
  · intro h
    split at h
    · obtain rfl := Option.some.inj h
      omega
    · cases h
  · rintro ⟨hlower, hupper⟩
    have hk : draw * n / 2 ^ bits = k := by
      rw [Nat.div_eq_iff (Nat.two_pow_pos bits)]
      omega
    rw [hk] at hdiv
    rw [if_pos (by omega), hk]

lemma lt_of_reduce (hpos : 0 < n) (hn : n < 2 ^ bits) (hdraw : draw < 2 ^ bits)
    (h : reduce bits n draw = some k) : k < n := by
  have hlower := ((reduce_eq_some_iff hpos hn).mp h).1
  have hproduct : draw * n < n * 2 ^ bits := by
    rw [Nat.mul_comm n]
    exact Nat.mul_lt_mul_of_pos_right hdraw hpos
  exact Nat.lt_of_mul_lt_mul_right (hlower.trans_lt hproduct)

lemma reduce_eq_some_iff_mem (hpos : 0 < n) (hn : n < 2 ^ bits) : reduce bits n draw = some k ↔
    draw ∈ Finset.Ico (k * 2 ^ bits ⌈/⌉ n) (k * 2 ^ bits ⌈/⌉ n + 2 ^ leadingZeros bits n) := by
  rw [reduce_eq_some_iff hpos hn, Finset.mem_Ico, ceilDiv_le_iff_le_mul hpos, Nat.mul_comm n draw]
  refine and_congr_right fun _ => ?_
  rcases lt_or_ge draw (2 ^ leadingZeros bits n) with hlt | hge
  · have hshort : draw * n < accepted bits n := by
      rw [accepted, Nat.mul_comm n]
      exact Nat.mul_lt_mul_of_pos_right hlt hpos
    exact iff_of_true (by omega) (by omega)
  · -- Both sides are about the draw that lies a whole stretch before this one.
    obtain ⟨d, rfl⟩ := Nat.exists_eq_add_of_le' hge
    rw [accepted, Nat.add_mul, Nat.mul_comm n, Nat.add_lt_add_iff_right, Nat.add_lt_add_iff_right,
      ← not_le, ← not_le, ceilDiv_le_iff_le_mul hpos, Nat.mul_comm d]

lemma card_draws (hn : n < 2 ^ bits) (hk : k < n) :
    ((Finset.range (2 ^ bits)).filter fun draw => reduce bits n draw = some k).card =
      2 ^ leadingZeros bits n := by
  have hpos : 0 < n := by omega
  have hstretch : ((Finset.range (2 ^ bits)).filter fun draw => reduce bits n draw = some k) =
      Finset.Ico (k * 2 ^ bits ⌈/⌉ n) (k * 2 ^ bits ⌈/⌉ n + 2 ^ leadingZeros bits n) := by
    ext draw
    rw [Finset.mem_filter, reduce_eq_some_iff_mem hpos hn, Finset.mem_range, and_iff_right_iff_imp,
      ← reduce_eq_some_iff_mem hpos hn, reduce_eq_some_iff hpos hn]
    -- What is accepted for `k` lies before the stretch of `n`, so that no draw is too large.
    rintro ⟨-, hupper⟩
    refine Nat.lt_of_mul_lt_mul_right (a := n) ?_
    calc draw * n
        < k * 2 ^ bits + accepted bits n := hupper
      _ ≤ k * 2 ^ bits + 2 ^ bits := Nat.add_le_add_left (accepted_le hpos hn) _
      _ = (k + 1) * 2 ^ bits := (Nat.succ_mul k _).symm
      _ ≤ n * 2 ^ bits := Nat.mul_le_mul_right _ hk
      _ = 2 ^ bits * n := Nat.mul_comm _ _
  rw [hstretch, Nat.card_Ico, Nat.add_sub_cancel_left]

def skip (g : Generator) : Nat → Generator
  | 0 => g
  | i + 1 => g.draw64.2.skip i

def drawAt (g : Generator) (i : Nat) : Nat := (g.skip i).draw64.1

lemma draw64_lt (g : Generator) : g.draw64.1 < 2 ^ 64 := by
  have hwords (low high : UInt32) : low.toNat + high.toNat * 0x100000000 < 2 ^ 64 := by
    have hlow := low.toNat_lt
    have hhigh := high.toNat_lt
    omega
  simp only [draw64]
  exact hwords _ _

structure Accepts (n : Nat) (g : Generator) (i k : Nat) : Prop where
  before : ∀ j < i, reduce 64 n (g.drawAt j) = none
  here : reduce 64 n (g.drawAt i) = some k

lemma below_succ (bits n : Nat) (draw : Generator → Nat × Generator) (attempts : Nat) (g : Generator) :
    below bits n draw (attempts + 1) g = match reduce bits n (draw g).1 with
      | some k => some (k, (draw g).2)
      | none => below bits n draw attempts (draw g).2 := rfl

lemma below64_cases (n attempts : Nat) (g : Generator) :
    (∃ i < attempts, ∃ k, g.Accepts n i k ∧ below64 n attempts g = some (k, g.skip (i + 1))) ∨
      ((∀ i < attempts, reduce 64 n (g.drawAt i) = none) ∧ below64 n attempts g = none) := by
  induction attempts generalizing g with
  | zero => exact .inr ⟨by simp, rfl⟩
  | succ attempts ih =>
    rw [below64, below_succ]
    cases hfirst : reduce 64 n g.draw64.1 with
    | some k => exact .inl ⟨0, Nat.succ_pos attempts, k, ⟨by simp, hfirst⟩, rfl⟩
    | none =>
      rcases ih g.draw64.2 with ⟨i, hi, k, haccepts, hbelow⟩ | ⟨hnone, hbelow⟩
      · refine .inl ⟨i + 1, Nat.succ_lt_succ hi, k, ⟨fun j hj => ?_, haccepts.here⟩, hbelow⟩
        cases j with
        | zero => exact hfirst
        | succ j => exact haccepts.before j (Nat.lt_of_succ_lt_succ hj)
      · refine .inr ⟨fun i hi => ?_, hbelow⟩
        cases i with
        | zero => exact hfirst
        | succ i => exact hnone i (Nat.lt_of_succ_lt_succ hi)

lemma Accepts.lt {g : Generator} {i : Nat} (h : g.Accepts n i k) (hpos : 0 < n) (hn : n < 2 ^ 64) : k < n :=
  lt_of_reduce hpos hn (g.skip i).draw64_lt h.here

end Generator

namespace Dice

open Generator

def faces (h : Heap) : Value → Nat
  | .number n => n.toInt.toNat
  | .list r => (h.items r).length
  | .map r => (h.entries r).length
  | _ => 0

inductive Shows (h : Heap) : (die : Value) → (k : Nat) → (v : Value) → (h' : Heap) → Prop
  | number {n v : Int64} {k : Nat} : v.toInt = k + 1 → 1 ≤ v → v ≤ n → Shows h (.number n) k (.number v) h
  | list {r : ListRef} {k : Nat} {v : Value} : (h.items r)[k]? = some v → Shows h (.list r) k v h
  | map {r r' : MapRef} {k : Nat} {e : String × Value} {h' : Heap} : (h.entries r)[k]? = some e →
      h.newMap [e] = (r', h') → Shows h (.map r) k (.map r') h'

variable {h : Heap} {die : Value} {k : Nat}

lemma shows_number {n : Int64} (hk : k < n.toInt.toNat) :
    Shows h (.number n) k (.number (Int64.ofNat (k + 1))) h := by
  have hlt := n.toInt_lt
  have hface : (Int64.ofNat (k + 1)).toInt = k + 1 := Int64.toInt_ofNat_of_lt (by omega)
  refine .number hface ?_ ?_
  · rw [Int64.le_iff_toInt_le, hface, Int64.toInt_one]
    omega
  · rw [Int64.le_iff_toInt_le, hface]
    omega

lemma throw_of_below {attempts : Nat} {g : Generator} (hpos : 0 < faces h die) :
    (∀ g', k < faces h die → g.below64 (faces h die) attempts = some (k, g') →
      ∃ v h', throw attempts die h g = (.face v, h', g') ∧ Shows h die k v h') ∧
    (g.below64 (faces h die) attempts = none → throw attempts die h g = (.unsettled, h, g)) := by
  cases die with
  | function => cases hpos
  | list r =>
    have hne : (h.items r).isEmpty = false := by simpa using List.ne_nil_of_length_pos hpos
    simp only [throw, hne, Bool.false_eq_true, ↓reduceIte, faces]
    refine ⟨fun g' hk hbelow => ⟨_, h, by rw [hbelow], .list ?_⟩, fun hbelow => by rw [hbelow]⟩
    rw [List.getD_eq_getElem?_getD, List.getElem?_eq_getElem hk, Option.getD_some]
  | map r =>
    have hne : (h.entries r).isEmpty = false := by simpa using List.ne_nil_of_length_pos hpos
    simp only [throw, hne, Bool.false_eq_true, ↓reduceIte, faces]
    refine ⟨fun g' hk hbelow => ?_, fun hbelow => by rw [hbelow]⟩
    have hentry : (h.entries r)[k]? = some (h.entries r)[k] := List.getElem?_eq_getElem hk
    rw [hbelow]
    dsimp only
    rw [hentry]
    exact ⟨_, _, rfl, .map hentry rfl⟩
  | scalar s =>
    cases s with
    | number n =>
      have hn : ¬ n ≤ 0 := by
        rw [Int64.le_iff_toInt_le, Int64.toInt_zero]
        simp only [faces] at hpos
        omega
      simp only [throw, hn, ↓reduceIte, faces]
      exact ⟨fun g' hk hbelow => ⟨_, h, by rw [hbelow], shows_number hk⟩, fun hbelow => by rw [hbelow]⟩
    | _ => cases hpos

/-- A throw shows the face that the first accepted draw stands for, within the range of the die, and comes
to nothing only if none of its attempts is accepted. Of all words that can be drawn at an attempt, equally
many stand for each face. -/
theorem throw_in_range_and_fair (h : Heap) (die : Value) (hpos : 0 < faces h die)
    (hword : faces h die < 2 ^ 64) :
    (∀ k < faces h die,
      ((Finset.range (2 ^ 64)).filter fun draw => reduce 64 (faces h die) draw = some k).card =
        2 ^ leadingZeros 64 (faces h die)) ∧
    ∀ attempts g, (∀ i, g.drawAt i < 2 ^ 64) ∧
      ((∃ i < attempts, ∃ k < faces h die, g.Accepts (faces h die) i k ∧
        ∃ v h', throw attempts die h g = (.face v, h', g.skip (i + 1)) ∧ Shows h die k v h') ∨
      ((∀ i < attempts, reduce 64 (faces h die) (g.drawAt i) = none) ∧
        throw attempts die h g = (.unsettled, h, g))) := by
  refine ⟨fun k hk => card_draws hword hk, fun attempts g => ⟨fun i => (g.skip i).draw64_lt, ?_⟩⟩
  rcases below64_cases (faces h die) attempts g with ⟨i, hi, k, haccepts, hbelow⟩ | ⟨hnone, hbelow⟩
  · have hk := haccepts.lt hpos hword
    exact .inl ⟨i, hi, k, hk, haccepts, (throw_of_below hpos).1 _ hk hbelow⟩
  · exact .inr ⟨hnone, (throw_of_below (k := 0) hpos).2 hbelow⟩

def weighted : Heap := ⟨#[], #[[("blank", .number 0), ("hit", .number 1), ("crit", .number 2)]]⟩

theorem weighted_map_thrown_fairly :
    faces weighted (.map ⟨0⟩) = 3 ∧
    (∀ k < 3, ((Finset.range (2 ^ 64)).filter fun draw => reduce 64 3 draw = some k).card = 2 ^ 62) ∧
    ∃ k < 3, ∃ v h', throw 5 (.map ⟨0⟩) weighted (.ofSeed 42) = (.face v, h', (ofSeed 42).skip 1) ∧
      Shows weighted (.map ⟨0⟩) k v h' := by
  have hfaces : faces weighted (.map ⟨0⟩) = 3 := rfl
  have hzeros : leadingZeros 64 3 = 62 := by decide
  have hfirst : (reduce 64 3 ((ofSeed 42).drawAt 0)).isSome = true := by decide +kernel
  have hfair := throw_in_range_and_fair weighted (.map ⟨0⟩) (by simp [hfaces]) (by simp [hfaces])
  rw [hfaces, hzeros] at hfair
  refine ⟨hfaces, hfair.1, ?_⟩
  rcases (hfair.2 5 (.ofSeed 42)).2 with ⟨i, -, k, hk, haccepts, hshows⟩ | ⟨hnone, -⟩
  · cases i with
    | zero => exact ⟨k, hk, hshows⟩
    | succ i =>
      rw [haccepts.before 0 i.succ_pos] at hfirst
      cases hfirst
  · rw [hnone 0 (by decide)] at hfirst
    cases hfirst

end Dice

end DiceLang

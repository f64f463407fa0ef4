import DiceLang.Proofs.Expr.Edges
import DiceLang.Proofs.Expr.Signs
import DiceLang.Proofs.Expr.Stable

/-! Trees with scalars in place of the names that stand for them. -/

namespace DiceLang

lemma toInt_neg_of_ne {n : Int64} (h : n ≠ Int64.minValue) : (-n).toInt = -n.toInt := by
  have hn : n.toInt ≠ -2 ^ 63 := fun heq => h (Int64.toInt_inj.mp heq)
  have hl := n.le_toInt
  have hu := n.toInt_lt
  rw [Int64.toInt_neg]
  apply Int.bmod_eq_of_le <;> omega

lemma neg_nonneg_of_ne {n : Int64} (h : n < 0) (hmin : n ≠ Int64.minValue) : 0 ≤ -n := by
  rw [Int64.lt_iff_toInt_lt, Int64.toInt_zero] at h
  rw [Int64.le_iff_toInt_le, Int64.toInt_zero, toInt_neg_of_ne hmin]
  omega

lemma ofInt64_neg {n : Int64} (h : n < 0) (hmin : n ≠ Int64.minValue) :
    Decimal.ofInt64 n = "-" ++ Decimal.ofInt64 (-n) := by
  rw [Int64.lt_iff_toInt_lt, Int64.toInt_zero] at h
  obtain ⟨k, hk⟩ : ∃ k : Nat, n.toInt = Int.negSucc k := Int.eq_negSucc_of_lt_zero h
  rw [Decimal.ofInt64, Decimal.ofInt64, toInt_neg_of_ne hmin, hk]
  rfl

namespace Expr

open Printer (isVar)

def writeSign : Expr → Expr
  | .scalar loc (.number n) =>
    if n < 0 then .unary loc .minus (.scalar loc (.number (-n))) else .scalar loc (.number n)
  | e => e

def constant (loc : Location) (v : Scalar) : Expr := writeSign (.scalar loc v)

def fillNode (look : Lookup) : Expr → Expr
  | .var loc name =>
    match look name with
    | some v => constant loc v
    | none => .var loc name
  | e => e

def fill (look : Lookup) : Expr → Expr := rewrite (fillNode look)

def fillBelow (look : Lookup) : Expr → Expr
  | .forEach loc index item out container condition =>
    .forEach loc index item (if isVar item out then out else fillNode look out)
      (fillNode look container) (condition.map (fillNode look))
  | e => e.mapChildren (fillNode look)

/-- The filled tree as the words of a label say it: a loop that collects its items keeps their name. -/
def kept (look : Lookup) (e : Expr) : Expr := fillNode look (rewrite (fillBelow look) e)

def isNegative (look : Lookup) : Expr → Bool
  | .var _ name =>
    match look name with
    | some (.number n) => decide (n < 0)
    | _ => false
  | _ => false

def isLeast (look : Lookup) : Expr → Bool
  | .var _ name => look name == some (.number Int64.minValue)
  | _ => false

def isMisplaced (look : Lookup) (e : Expr) : Bool := e.spots.any fun x => x.1 && x.2.isNegative look

def collectsBound (look : Lookup) : Expr → Bool
  | .forEach _ _ item out _ _ => isVar item out && (look item).isSome
  | _ => false

section

variable {look : Lookup} {e : Expr}

lemma fill_var (look : Lookup) (loc : Location) (name : String) :
    (var loc name).fill look = fillNode look (.var loc name) := rfl

lemma fill_of_ne_var (look : Lookup) (h : ∀ loc name, e ≠ .var loc name) :
    e.fill look = e.mapChildren (fill look) := by
  rw [fill, rewrite_eq]
  cases e with
  | var loc name => exact absurd rfl (h loc name)
  | _ => rfl

lemma mapChildren_mapChildren (f g : Expr → Expr) (e : Expr) :
    (e.mapChildren f).mapChildren g = e.mapChildren (g ∘ f) := by
  cases e <;> simp [mapChildren, Function.comp_def]

lemma kept_var (look : Lookup) (loc : Location) (name : String) :
    (var loc name).kept look = fillNode look (.var loc name) := rfl

lemma kept_of_ne (look : Lookup) (h : ∀ loc name, e ≠ .var loc name)
    (h' : ∀ loc index item out container condition,
      e ≠ .forEach loc index item out container condition) :
    e.kept look = e.mapChildren (kept look) := by
  have hb : fillBelow look (e.mapChildren (rewrite (fillBelow look))) =
      (e.mapChildren (rewrite (fillBelow look))).mapChildren (fillNode look) := by
    cases e with
    | forEach => exact absurd rfl (h' _ _ _ _ _ _)
    | _ => rfl
  rw [kept, rewrite_eq, hb, mapChildren_mapChildren]
  cases e with
  | var loc name => exact absurd rfl (h loc name)
  | _ => rfl

lemma isVar_rewrite_fillBelow (look : Lookup) (item : String) (e : Expr) :
    isVar item (rewrite (fillBelow look) e) = isVar item e := by
  cases e <;> rfl

lemma kept_forEach (look : Lookup) (loc : Location) (index : Option String) (item : String)
    (out container : Expr) (condition : Option Expr) :
    (forEach loc index item out container condition).kept look =
      .forEach loc index item (if isVar item out then out else out.kept look)
        (container.kept look) (condition.map (kept look)) := by
  have hk : (forEach loc index item out container condition).kept look =
      .forEach loc index item (if isVar item (rewrite (fillBelow look) out) then
        rewrite (fillBelow look) out else out.kept look) (container.kept look)
        ((condition.map (rewrite (fillBelow look))).map (fillNode look)) := by
    rw [kept, rewrite_eq]
    rfl
  rw [hk, isVar_rewrite_fillBelow, Option.map_map]
  by_cases hv : isVar item out = true
  · obtain ⟨loc', rfl⟩ := Printer.eq_var_of_isVar hv
    rw [if_pos hv, if_pos hv]
    rfl
  · rw [if_neg hv, if_neg hv]
    rfl

lemma fill_none (e : Expr) : e.fill (fun _ => none) = e := by
  induction e using children_induction with
  | step e ih =>
    cases e with
    | var loc name => rfl
    | _ => rw [fill_of_ne_var _ (by simp), mapChildren_eq_self ih]

lemma isNegative_none (e : Expr) : e.isNegative (fun _ => none) = false := by cases e <;> rfl

lemma isLeast_none (e : Expr) : e.isLeast (fun _ => none) = false := by cases e <;> rfl

lemma isMisplaced_none (e : Expr) : e.isMisplaced (fun _ => none) = false := by
  simp [isMisplaced, isNegative_none]

lemma collectsBound_none (e : Expr) : e.collectsBound (fun _ => none) = false := by
  cases e <;> simp [collectsBound]

lemma kept_eq_fill (h : ∀ n, Within n e → n.collectsBound look = false) :
    e.kept look = e.fill look := by
  induction e using children_induction with
  | step e ih =>
    obtain ⟨hb, hc⟩ := forall_within.mp h
    replace ih : ∀ c ∈ e.children, c.kept look = c.fill look := fun c hm => ih c hm (hc c hm)
    cases e with
    | var loc name => rfl
    | forEach loc index item out container condition =>
      have hout : (if isVar item out then out else out.kept look) = out.kept look := by
        by_cases hv : isVar item out = true
        · obtain ⟨loc', rfl⟩ := Printer.eq_var_of_isVar hv
          have hnone : look item = none := by simpa [collectsBound, hv] using hb
          rw [if_pos hv, kept_var, fillNode, hnone]
        · rw [if_neg hv]
      rw [kept_forEach, hout, fill_of_ne_var look (by simp), ← mapChildren_congr ih, mapChildren]
    | _ => rw [kept_of_ne look (by simp) (by simp), fill_of_ne_var look (by simp), mapChildren_congr ih]

lemma kept_none (e : Expr) : e.kept (fun _ => none) = e :=
  (kept_eq_fill fun n _ => n.collectsBound_none).trans e.fill_none

lemma precedence_fill (h : e.isNegative look = false) : (e.fill look).precedence = e.precedence := by
  cases e with
  | var loc name =>
    rw [fill_var, fillNode]
    rw [isNegative] at h
    cases hl : look name with
    | none => rfl
    | some v =>
      cases v with
      | number n =>
        have hn : ¬ n < 0 := by simpa [hl] using h
        simp [constant, writeSign, precedence, hn]
      | _ => rfl
  | _ => rw [fill_of_ne_var look (by simp), (sameForm_mapChildren _ _).precedence]

lemma precedence_fill_of_isNegative (h : e.isNegative look = true) :
    (e.fill look).precedence = .sign := by
  cases e with
  | var loc name =>
    rw [fill_var, fillNode]
    rw [isNegative] at h
    cases hl : look name with
    | none => simp [hl] at h
    | some v =>
      cases v with
      | number n =>
        have hn : n < 0 := by simpa [hl] using h
        simp [constant, writeSign, precedence, UnaryOp.precedence, hn]
      | _ => simp [hl] at h
  | _ => simp [isNegative] at h

lemma isGlued_constant (loc : Location) (v : Scalar) : (constant loc v).isGlued = false := by
  cases v with
  | number n => by_cases hn : n < 0 <;> simp [constant, writeSign, hn, isGlued]
  | _ => rfl

lemma isGlued_of_fill (h : (e.fill look).isGlued = true) : e.isGlued = true := by
  induction e using children_induction with
  | step e ih =>
    cases e with
    | var loc name =>
      rw [fill_var, fillNode] at h
      cases hl : look name with
      | none => simpa [hl] using h
      | some v => simp [hl, isGlued_constant] at h
    | binary loc op left right =>
      rw [fill_of_ne_var look (by simp), mapChildren] at h
      cases op with
      | subscript => exact ih left (by simp [children]) h
      | _ => cases h
    | call loc callee positional named =>
      rw [fill_of_ne_var look (by simp), mapChildren] at h
      exact ih callee (by simp [children]) h
    | _ =>
      rw [fill_of_ne_var look (by simp), mapChildren] at h
      cases h

lemma isGlued_fill (h : e.isGlued = false) : (e.fill look).isGlued = false := by
  by_contra hg
  rw [isGlued_of_fill (by simpa using hg)] at h
  cases h

def Sits (look : Lookup) (level : Precedence) (e : Expr) : Prop :=
  level.rank ≤ e.precedence.rank → level.rank ≤ (e.fill look).precedence.rank

lemma sits {level : Precedence} (h : isTight level = true → e.isNegative look = false) :
    Sits look level e := by
  intro hle
  cases hn : e.isNegative look with
  | false => rwa [precedence_fill hn]
  | true =>
    rw [precedence_fill_of_isNegative hn]
    by_contra hlt
    rw [h (decide_eq_true (Nat.not_le.mp hlt))] at hn
    cases hn

lemma sits_of_le {level : Precedence} (h : level.rank ≤ Precedence.sign.rank) : Sits look level e :=
  sits fun hlt => absurd (of_decide_eq_true hlt) (Nat.not_lt.mpr h)

lemma sits_of_spots {level : Precedence} {n : Expr} (h : n.isMisplaced look = false)
    (hs : (isTight level, e) ∈ n.spots) : Sits look level e := by
  refine sits fun ht => ?_
  have hx := List.any_eq_false.mp h _ hs
  simpa [ht] using hx

end

def shown (look : Lookup) (e : Expr) : Expr := (e.kept look).reread

section

variable {look : Lookup} {e : Expr}

lemma shown_of_ne (look : Lookup) (h : ∀ loc name, e ≠ .var loc name)
    (h' : ∀ loc index item out container condition,
      e ≠ .forEach loc index item out container condition) :
    e.shown look = nameImport (e.mapChildren (shown look)) := by
  rw [shown, kept_of_ne look h h', reread_eq, mapChildren_mapChildren]
  rfl

lemma shown_forEach (look : Lookup) (loc : Location) (index : Option String) (item : String)
    (out container : Expr) (condition : Option Expr) :
    (forEach loc index item out container condition).shown look =
      .forEach loc index item (if isVar item out then out else out.shown look)
        (container.shown look) (condition.map (shown look)) := by
  rw [shown, kept_forEach, reread_forEach, Option.map_map]
  by_cases hv : isVar item out = true
  · obtain ⟨loc', rfl⟩ := Printer.eq_var_of_isVar hv
    rw [if_pos hv, if_pos hv]
    rfl
  · rw [if_neg hv, if_neg hv]
    rfl

lemma bareDefault_written (d : Option Expr) :
    bareDefault ((Printer.writtenDefault d).map (shown look)) = bareDefault (d.map (shown look)) := by
  rw [Printer.writtenDefault]
  split_ifs with hu
  · obtain ⟨loc, rfl⟩ := eq_undefined_of_isUndefined hu
    rfl
  · rfl

lemma bareCondition_written (c : Option Expr) :
    bareCondition ((Printer.writtenCondition c).map (shown look)) =
      bareCondition (c.map (shown look)) := by
  rw [Printer.writtenCondition]
  split_ifs with ht
  · obtain ⟨loc, rfl⟩ := eq_true_of_isTrue ht
    rfl
  · rfl

lemma fillNode_eq_var {loc loc' : Location} {name name' : String}
    (h : fillNode look (.var loc' name') = .var loc name) :
    var loc' name' = .var loc name ∧ look name = none := by
  rw [fillNode] at h
  cases hl : look name' with
  | none =>
    simp only [hl] at h
    obtain ⟨rfl, rfl⟩ := var.inj h
    exact ⟨rfl, hl⟩
  | some v =>
    cases v with
    | number n => by_cases hn : n < 0 <;> simp [hl, constant, writeSign, hn] at h
    | _ => simp [hl, constant, writeSign] at h

lemma fill_eq_var {loc : Location} {name : String} (h : e.fill look = .var loc name) :
    e = .var loc name ∧ look name = none := by
  cases e with
  | var loc' name' => exact fillNode_eq_var h
  | _ =>
    rw [fill_of_ne_var look (by simp), mapChildren] at h
    cases h

lemma kept_eq_var {loc : Location} {name : String} (h : e.kept look = .var loc name) :
    e = .var loc name ∧ look name = none := by
  cases e with
  | var loc' name' => exact fillNode_eq_var h
  | forEach => simp [kept_forEach] at h
  | _ =>
    rw [kept_of_ne look (by simp) (by simp), mapChildren] at h
    cases h

lemma kept_eq_assign {loc : Location} {left right : Expr}
    (h : e.kept look = .binary loc .assign left right) :
    ∃ l r, e = .binary loc .assign l r ∧ l.kept look = left ∧ r.kept look = right := by
  cases e with
  | var loc' name =>
    rw [kept_var, fillNode] at h
    cases hl : look name with
    | none => simp [hl] at h
    | some v =>
      cases v with
      | number n => by_cases hn : n < 0 <;> simp [hl, constant, writeSign, hn] at h
      | _ => simp [hl, constant, writeSign] at h
  | forEach => simp [kept_forEach] at h
  | binary loc' op l r =>
    rw [kept_of_ne look (by simp) (by simp), mapChildren] at h
    obtain ⟨rfl, rfl, rfl, rfl⟩ := binary.inj h
    exact ⟨l, r, rfl, rfl, rfl⟩
  | _ =>
    rw [kept_of_ne look (by simp) (by simp), mapChildren] at h
    cases h

end

end Expr

end DiceLang

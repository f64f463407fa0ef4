import DiceLang.Proofs.Expr.Bare

/-! Numbers with a minus of their own. At a place that is stronger than a sign, such a number must stand alone
with its minus in parentheses. -/

namespace DiceLang

namespace Expr

open Printer (leftLevel rightLevel operandLevel)

def isNumber : Expr → Bool
  | .scalar _ (.number _) => true
  | _ => false

def isSigned : Expr → Bool
  | .unary _ .minus operand => operand.isNumber
  | _ => false

def isTight (level : Precedence) : Bool := decide (Precedence.sign.rank < level.rank)

/-- The parts of an expression in the order of its words, each with whether a sign needs parentheses
there. A loop of one round more has a limit that is not written. -/
def spots : Expr → List (Bool × Expr)
  | .list _ items => items.map (false, ·)
  | .map _ entries => entries.map fun x => (false, x.2)
  | .lambda _ params body => (params.filterMap Prod.snd).map (false, ·) ++ [(false, body)]
  | .unary _ op operand => [(isTight (operandLevel op), operand)]
  | .binary _ op left right => [(isTight (leftLevel op), left), (isTight (rightLevel op), right)]
  | .forEach _ _ _ out container condition =>
    (false, out) :: (false, container) :: condition.toList.map (false, ·)
  | .repeating _ .before body condition limit =>
    (false, condition) :: (false, body) :: limit.toList.map (false, ·)
  | .repeating _ .after body condition limit =>
    (false, body) :: (false, condition) :: limit.toList.map (false, ·)
  | .repeating _ .once body condition _ => [(false, body), (false, condition)]
  | .conditional _ condition whenTrue whenFalse =>
    [(false, condition), (false, whenTrue), (false, whenFalse)]
  | .call _ callee positional named =>
    (true, callee) :: (positional ++ named.map Prod.snd).map (false, ·)
  | .output _ _ expression _ name => (false, expression) :: name.toList.map (false, ·)
  | .importing _ _ address => [(false, address)]
  | _ => []

lemma mem_children_of_spots {e : Expr} {x : Bool × Expr} (h : x ∈ e.spots) : x.2 ∈ e.children := by
  cases e with
  | lambda loc params body =>
    simp only [spots, List.mem_append, List.mem_map, List.mem_singleton] at h
    rcases h with ⟨c, hc, rfl⟩ | rfl
    · exact List.mem_cons_of_mem _ hc
    · exact List.mem_cons_self
  | repeating loc form body condition limit =>
    cases form <;> simp only [spots, List.mem_cons, List.mem_map, List.not_mem_nil, or_false] at h <;>
      simp only [children, List.mem_cons] <;> grind
  | _ => simp only [spots, children, List.mem_cons, List.mem_map, List.mem_append] at h ⊢; grind

lemma mem_spots_of_children {e c : Expr} (hc : c ∈ e.children)
    (h : ∀ loc body condition limit, e ≠ .repeating loc .once body condition limit) :
    c ∈ e.spots.map Prod.snd := by
  cases e with
  | scalar | interpolation | scopeVariables | var => cases hc
  | lambda loc params body => simpa [spots, children, or_comm] using hc
  | repeating loc form body condition limit =>
    cases form with
    | once => exact absurd rfl (h _ _ _ _)
    | before => simpa [spots, children, or_left_comm] using hc
    | after => simpa [spots, children] using hc
  | _ => simpa [spots, children, Function.comp_def] using hc

/-- For each number of the tree, whether it must stand alone with a minus in parentheses. -/
def needs (e : Expr) : List Bool :=
  (if e.isNumber then [false] else []) ++
    e.spots.attach.flatMap fun x => if x.1.1 && x.1.2.isSigned then [true] else x.1.2.needs
termination_by sizeOf e
decreasing_by exact sizeOf_child (mem_children_of_spots x.2)

def needsAt (tight : Bool) (e : Expr) : List Bool := if tight && e.isSigned then [true] else e.needs

lemma needs_eq (e : Expr) : e.needs =
    (if e.isNumber then [false] else []) ++ e.spots.flatMap fun x => x.2.needsAt x.1 := by
  have hspots : (e.spots.attach.map fun x => x.1.2.needsAt x.1.1) =
      e.spots.map fun x => x.2.needsAt x.1 :=
    List.attach_map_val (f := fun x : Bool × Expr => x.2.needsAt x.1)
  rw [needs, List.flatMap_def, List.flatMap_def, ← hspots]
  rfl

lemma needs_of_spots {e : Expr} (h : e.isNumber = false) :
    e.needs = e.spots.flatMap fun x => x.2.needsAt x.1 := by
  rw [needs_eq, h]
  rfl

lemma needs_leaf {e : Expr} (hn : e.isNumber = false) (hs : e.spots = []) : e.needs = [] := by
  rw [needs_of_spots hn, hs]
  rfl

lemma needs_unary (loc : Location) (op : UnaryOp) (operand : Expr) :
    (unary loc op operand).needs = operand.needsAt (isTight (operandLevel op)) := by
  rw [needs_of_spots rfl, spots, List.flatMap_singleton]

lemma needs_number (loc : Location) (n : Int64) : (scalar loc (.number n)).needs = [false] := by
  rw [needs_eq]
  rfl

lemma needsAt_of_not_isSigned {tight : Bool} {e : Expr} (h : e.isSigned = false) :
    e.needsAt tight = e.needs := by
  rw [needsAt, h, Bool.and_false]
  rfl

lemma needsAt_false (e : Expr) : e.needsAt false = e.needs := rfl

lemma exists_of_isSigned {e : Expr} (h : e.isSigned = true) :
    ∃ loc loc' n, e = .unary loc .minus (.scalar loc' (.number n)) := by
  cases e with
  | unary loc op operand =>
    cases op with
    | minus =>
      cases operand with
      | scalar loc' v =>
        cases v with
        | number n => exact ⟨loc, loc', n, rfl⟩
        | _ => cases h
      | _ => cases h
    | _ => cases h
  | _ => cases h

lemma needs_of_isSigned {e : Expr} (h : e.isSigned = true) : e.needs = [false] := by
  obtain ⟨loc, loc', n, rfl⟩ := exists_of_isSigned h
  rw [needs_unary, needsAt_of_not_isSigned rfl, needs_number]

lemma spots_mapChildren (g : Expr → Expr) (e : Expr) :
    (e.mapChildren g).spots = e.spots.map fun x => (x.1, g x.2) := by
  cases e with
  | lambda loc params body =>
    simp only [mapChildren, spots, List.filterMap_map, List.map_append, List.map_cons, List.map_nil,
      List.map_filterMap]
    congr 2
    funext x
    cases h : x.2 <;> simp [h]
  | forEach loc index item out container condition => cases condition <;> rfl
  | repeating loc form body condition limit => cases form <;> cases limit <;> rfl
  | output loc mode expression type name => cases name <;> rfl
  | _ => simp [mapChildren, spots, Function.comp_def]

lemma isNumber_bare (e : Expr) : e.bare.isNumber = e.isNumber := by
  cases e with
  | scalar loc v => cases v <;> rfl
  | _ => simp [isNumber]

lemma isSigned_bare (e : Expr) : e.bare.isSigned = e.isSigned := by
  cases e with
  | unary loc op operand => cases op <;> simp [isSigned, isNumber_bare]
  | _ => simp [isSigned]

lemma needs_trimmed (e : Expr) : e.trimmed.needs = e.needs := by
  cases e with
  | lambda loc params body =>
    rw [trimmed, needs_of_spots rfl, needs_of_spots rfl, spots, spots, List.flatMap_append,
      List.flatMap_append]
    refine congrArg (· ++ _) ?_
    induction params with
    | nil => rfl
    | cons x params ih =>
      obtain ⟨name, d⟩ := x
      by_cases hu : Printer.isUndefined d
      · obtain ⟨loc', rfl⟩ := eq_undefined_of_isUndefined hu
        have hn : (scalar loc' .undefined).needs = [] := needs_leaf rfl rfl
        simpa [hu, needsAt_false, hn] using ih
      · cases d <;> simpa [hu] using ih
  | forEach loc index item out container condition =>
    by_cases ht : Printer.isTrue condition
    · obtain ⟨loc', rfl⟩ := eq_true_of_isTrue ht
      have hn : (scalar loc' (.boolean true)).needs = [] := needs_leaf rfl rfl
      rw [trimmed, if_pos ht, needs_of_spots rfl, needs_of_spots rfl]
      simp [spots, needsAt_false, hn]
    · rw [trimmed, if_neg ht]
  | _ => rfl

lemma needs_bare (e : Expr) : e.bare.needs = e.needs := by
  induction e using children_induction with
  | step e ih =>
    have hplace (e : Expr) : (e.place .builtin).needs = e.needs := by
      rw [needs_eq, needs_eq]
      cases e with
      | scalar loc v => cases v <;> rfl
      | repeating loc form => cases form <;> rfl
      | _ => rfl
    have hnumber : (e.mapChildren bare).isNumber = e.isNumber := by cases e <;> rfl
    rw [bare_eq, needs_trimmed, hplace, needs_eq, needs_eq, hnumber, spots_mapChildren,
      List.flatMap_map]
    refine congrArg _ (List.flatMap_congr fun x hx => ?_)
    simp only [needsAt, isSigned_bare, ih x.2 (mem_children_of_spots hx)]

end Expr

namespace Parser

/-- What stands before a word: an opening parenthesis, a minus behind one, such a minus with more
parentheses behind it, or something else. -/
inductive Preceding where
  | other | opened | signed | nested
deriving DecidableEq

namespace Preceding

def step : Preceding → Lexeme → Preceding
  | .signed, .mark .openParen | .nested, .mark .openParen => .nested
  | _, .mark .openParen => .opened
  | .opened, .mark .minus | .nested, .mark .minus => .signed
  | _, _ => .other

def isSigned : Preceding → Bool
  | .signed | .nested => true
  | _ => false

def run (b : Preceding) (ws : List Lexeme) : Preceding := ws.foldl step b

def Below (a b : Preceding) : Prop := a = .other ∨ a = b ∨ a = .opened ∧ b = .nested

lemma Below.step {a b : Preceding} (h : Below a b) (w : Lexeme) : Below (a.step w) (b.step w) := by
  rcases h with rfl | rfl | ⟨rfl, rfl⟩
  · cases w with
    | mark m => cases m <;> cases b <;> simp [Below, Preceding.step]
    | _ => exact .inl rfl
  · exact .inr (.inl rfl)
  · cases w with
    | mark m => cases m <;> simp [Below, Preceding.step]
    | _ => exact .inl rfl

lemma Below.isSigned {a b : Preceding} (h : Below a b) : a.isSigned ≤ b.isSigned := by
  rcases h with rfl | rfl | ⟨rfl, rfl⟩
  · exact Bool.false_le _
  · exact le_rfl
  · exact Bool.false_le _

end Preceding

def isNumberWord : Lexeme → Bool
  | .number _ => true
  | _ => false

def closes : Lexeme → Bool
  | .mark .closeParen | .mark .semicolon => true
  | _ => false

/-- For each number among the words, whether it stands alone with a minus in parentheses. -/
def given (behind : List Lexeme) : Preceding → List Lexeme → List Bool
  | _, [] => []
  | b, .number _ :: ws => (b.isSigned && (ws ++ behind).head?.any closes) :: given behind .other ws
  | b, w :: ws => given behind (b.step w) ws

abbrev Meets : List Bool → List Bool → Prop := List.Forall₂ (· ≤ ·)

lemma Meets.trans {xs ys zs : List Bool} (h : Meets xs ys) (h' : Meets ys zs) : Meets xs zs := by
  induction h generalizing zs with
  | nil => exact h'
  | cons hx _ ih =>
    cases h' with
    | cons hy h' => exact .cons (hx.trans hy) (ih h')

lemma given_cons {w : Lexeme} (h : isNumberWord w = false) (behind : List Lexeme) (b : Preceding)
    (ws : List Lexeme) : given behind b (w :: ws) = given behind (b.step w) ws := by
  cases w with
  | number n => cases h
  | _ => rfl

lemma given_append (behind : List Lexeme) (b : Preceding) (us ws : List Lexeme) :
    given behind b (us ++ ws) = given (ws ++ behind) b us ++ given behind (b.run us) ws := by
  induction us generalizing b with
  | nil => rfl
  | cons u us ih =>
    cases hu : isNumberWord u with
    | false =>
      rw [List.cons_append, given_cons hu, given_cons hu, ih]
      rfl
    | true =>
      cases u with
      | number n =>
        have hrun : b.run (.number n :: us) = Preceding.other.run us := by cases b <;> rfl
        rw [List.cons_append, given, given, ih, List.append_assoc, hrun, List.cons_append]
      | _ => cases hu

lemma length_given (behind : List Lexeme) (b : Preceding) (ws : List Lexeme) :
    (given behind b ws).length = ws.countP isNumberWord := by
  induction ws generalizing b with
  | nil => rfl
  | cons w ws ih =>
    cases w with
    | number n => rw [given, List.length_cons, ih, List.countP_cons_of_pos rfl]
    | _ => rw [given_cons rfl, ih, List.countP_cons_of_neg (by simp [isNumberWord])]

lemma given_mono {a b : Preceding} (h : a.Below b) (behind ws : List Lexeme) :
    Meets (given [] a ws) (given behind b ws) := by
  induction ws generalizing a b with
  | nil => exact .nil
  | cons w ws ih =>
    cases w with
    | number n =>
      refine .cons ?_ (ih (.inl rfl))
      cases ws with
      | nil => simp
      | cons w ws =>
        refine Bool.le_iff_imp.mpr fun ha => ?_
        rw [Bool.and_eq_true] at ha ⊢
        exact ⟨Bool.le_iff_imp.mp h.isSigned ha.1, ha.2⟩
    | _ => exact ih (h.step _)

lemma meets_append {xs ys : List Bool} {us ws : List Lexeme} (hu : Meets xs (given [] .other us))
    (hw : Meets ys (given [] .other ws)) : Meets (xs ++ ys) (given [] .other (us ++ ws)) := by
  rw [given_append]
  exact List.rel_append (hu.trans (given_mono (.inl rfl) _ us)) (hw.trans (given_mono (.inl rfl) _ ws))

end Parser

end DiceLang

import DiceLang.Proofs.Parser.Grammar

/-! Where a sign needs parentheses, the words of a program have them. -/

namespace DiceLang.Parser

open DiceLang.Expr (isTight)
open Printer (leftLevel rightLevel operandLevel)

def Silent (s : List Lexeme) : Prop := ∀ w ∈ s, isNumberWord w = false

lemma silent_singleton {w : Lexeme} (h : isNumberWord w = false) : Silent [w] := by
  simpa [Silent] using h

lemma isNumberWord_joint (op : BinaryOp) : isNumberWord op.joint = false := by
  cases op <;> rfl

lemma Silent.meets {s : List Lexeme} (h : Silent s) : Meets [] (given [] .other s) := by
  have hlen : (given [] .other s).length = 0 := by
    rw [length_given, List.countP_eq_zero]
    exact fun w hw => by simp [h w hw]
  rw [List.length_eq_zero_iff.mp hlen]
  exact .nil

lemma Silent.meets_append {s s' : List Lexeme} {xs : List Bool} (h : Silent s)
    (h' : Meets xs (given [] .other s')) : Meets xs (given [] .other (s ++ s')) :=
  Parser.meets_append h.meets h'

lemma meets_cons {xs : List Bool} {s : List Lexeme} {w : Lexeme} (hw : isNumberWord w = false)
    (h : Meets xs (given [] .other s)) : Meets xs (given [] .other (w :: s)) :=
  (silent_singleton hw).meets_append h

lemma meets_snoc {xs : List Bool} {s : List Lexeme} {w : Lexeme} (hw : isNumberWord w = false)
    (h : Meets xs (given [] .other s)) : Meets xs (given [] .other (s ++ [w])) := by
  have h' := meets_append h (silent_singleton hw).meets
  rwa [List.append_nil] at h'

inductive Lone : List Lexeme → Prop
  | number (n : Int64) : Lone [.number n]
  | ended {s : List Lexeme} : Lone s → Lone (s ++ [.mark .semicolon])
  | parens {s : List Lexeme} : Lone s → Lone (.mark .openParen :: (s ++ [.mark .closeParen]))

inductive LoneSigned : List Lexeme → Prop
  | minus {s : List Lexeme} : Lone s → LoneSigned (.mark .minus :: s)
  | ended {s : List Lexeme} : LoneSigned s → LoneSigned (s ++ [.mark .semicolon])
  | parens {s : List Lexeme} :
      LoneSigned s → LoneSigned (.mark .openParen :: (s ++ [.mark .closeParen]))

lemma given_closing {w : Lexeme} (h : closes w = true) (b : Preceding) (rest : List Lexeme) :
    given [] b (w :: rest) = given [] .other rest := by
  unfold closes at h
  split at h
  · cases b <;> rfl
  · cases b <;> rfl
  · cases h

lemma Lone.given_eq {s : List Lexeme} (h : Lone s) {b : Preceding} (hb : b.isSigned = true) {w : Lexeme}
    (hw : closes w = true) (rest : List Lexeme) :
    given [] b (s ++ w :: rest) = true :: given [] .other rest := by
  induction h generalizing b w rest with
  | number n => simp [given, hb, hw, given_closing]
  | ended _ ih =>
    have h := ih hb (w := .mark .semicolon) rfl (w :: rest)
    rw [given_closing hw] at h
    simpa using h
  | @parens s _ ih =>
    have hn : b.step (.mark .openParen) = .nested := by
      cases b with
      | other | opened => cases hb
      | signed | nested => rfl
    have h := ih (b := .nested) rfl (w := .mark .closeParen) rfl (w :: rest)
    rw [given_closing hw, ← hn, ← given_cons rfl] at h
    simpa using h

lemma LoneSigned.given_eq {s : List Lexeme} (h : LoneSigned s) {w : Lexeme} (hw : closes w = true)
    (rest : List Lexeme) : given [] .opened (s ++ w :: rest) = true :: given [] .other rest := by
  induction h generalizing w rest with
  | minus hs => exact hs.given_eq (b := .signed) rfl hw rest
  | ended _ ih =>
    have h := ih (w := .mark .semicolon) rfl (w :: rest)
    rw [given_closing hw] at h
    simpa using h
  | parens _ ih =>
    have h := ih (w := .mark .closeParen) rfl (w :: rest)
    rw [given_closing hw] at h
    rw [List.cons_append, given_cons rfl, List.append_assoc]
    exact h

structure Spells (tight : Bool) (s : List Lexeme) (t : Expr) : Prop where
  needs : Meets (t.needsAt tight) (given [] .other s)
  number : t.isNumber = true → Lone s
  signed : t.isSigned = true → LoneSigned s

lemma spells_of {tight : Bool} {s : List Lexeme} {t : Expr} (hn : t.isNumber = false)
    (hs : t.isSigned = false)
    (h : Meets (t.spots.flatMap fun x => x.2.needsAt x.1) (given [] .other s)) : Spells tight s t where
  needs := by rwa [Expr.needsAt_of_not_isSigned hs, Expr.needs_of_spots hn]
  number ht := by simp [hn] at ht
  signed ht := by simp [hs] at ht

lemma Spells.weaken {tight : Bool} {s : List Lexeme} {t : Expr} (h : Spells tight s t) :
    Spells false s t where
  needs := by
    by_cases ht : (tight && t.isSigned) = true
    · have hn := h.needs
      rw [Expr.needsAt, if_pos ht] at hn
      rw [Bool.and_eq_true] at ht
      rw [Expr.needsAt_false, Expr.needs_of_isSigned ht.2]
      exact Meets.trans (.cons (Bool.false_le true) .nil) hn
    · have hn := h.needs
      rwa [Expr.needsAt, if_neg ht] at hn
  number := h.number
  signed := h.signed

lemma Spells.parens {tight : Bool} {s : List Lexeme} {t : Expr} (h : Spells false s t) :
    Spells tight (.mark .openParen :: (s ++ [.mark .closeParen])) t where
  needs := by
    by_cases ht : (tight && t.isSigned) = true
    · rw [Expr.needsAt, if_pos ht, given_cons rfl]
      rw [Bool.and_eq_true] at ht
      rw [show Preceding.other.step (.mark .openParen) = .opened from rfl, (h.signed ht.2).given_eq rfl []]
      exact .cons le_rfl .nil
    · rw [Expr.needsAt, if_neg ht]
      exact meets_cons rfl (meets_snoc rfl h.needs)
  number ht := .parens (h.number ht)
  signed ht := .parens (h.signed ht)

lemma Spells.ended {s : List Lexeme} {t : Expr} (h : Spells false s t) :
    Spells false (s ++ [.mark .semicolon]) t where
  needs := meets_snoc rfl h.needs
  number ht := .ended (h.number ht)
  signed ht := .ended (h.signed ht)

lemma spells_minus {s : List Lexeme} {t : Expr} (h : Spells true s t) (loc : Location) :
    Spells false (.mark .minus :: s) (.unary loc .minus t) where
  needs := by
    rw [Expr.needsAt_false, Expr.needs_unary]
    exact meets_cons rfl h.needs
  number ht := by cases ht
  signed ht := .minus (h.number ht)

lemma spells_leaf {tight : Bool} {e : Expr} {s : List Lexeme} (hn : e.isNumber = false)
    (hs : e.spots = []) (h : Silent s) : Spells tight s e := by
  have hsigned : e.isSigned = false := by
    by_contra ht
    obtain ⟨_, _, _, rfl⟩ := Expr.exists_of_isSigned (by simpa using ht)
    cases hs
  refine spells_of hn hsigned ?_
  rw [hs]
  exact h.meets

lemma spells_atom {loc : Location} {l : Lexeme} {e : Expr} (h : atom? loc l = some e)
    (tight : Bool) : Spells tight [l] e := by
  have leaf {l : Lexeme} {e : Expr} (hl : isNumberWord l = false) (hn : e.isNumber = false)
      (hs : e.spots = []) : Spells tight [l] e :=
    spells_leaf hn hs (silent_singleton hl)
  cases l with
  | name s =>
    obtain rfl := Option.some.inj h
    exact leaf rfl rfl rfl
  | text fs =>
    obtain rfl := Option.some.inj h
    unfold literal
    split <;> exact leaf rfl rfl rfl
  | number n =>
    obtain rfl := Option.some.inj h
    refine ⟨?_, fun _ => .number n, fun hs => by cases hs⟩
    rw [Expr.needsAt_of_not_isSigned rfl, Expr.needs_number]
    exact .cons (Bool.false_le _) .nil
  | keyword k => cases k <;> cases h <;> exact leaf rfl rfl rfl
  | _ => cases h

lemma isNumberWord_of_isFrame {w : Lexeme} (h : isFrame w = true) : isNumberWord w = false := by
  cases w with
  | number n => cases h
  | _ => rfl

lemma Parts.meets {s : List Lexeme} {ns : List String} {ps : List (Bool × Expr)} (h : Parts Spells s ns ps) :
    Meets (ps.flatMap fun x => x.2.needsAt x.1) (given [] .other s) := by
  induction h with
  | nil => exact .nil
  | word hw _ ih => exact meets_cons (isNumberWord_of_isFrame hw) ih
  | name n _ ih => exact meets_cons rfl ih
  | part he _ ih => exact meets_append he.needs ih
  | itself loc _ _ ih =>
    rw [List.flatMap_cons, Expr.needsAt_false, Expr.needs_leaf rfl rfl]
    exact ih

lemma Parts.spells {tight : Bool} {s : List Lexeme} {ns : List String} {e : Expr}
    (h : Parts Spells s ns e.spots) (hform : e.IsForm) : Spells tight s e := by
  refine spells_of ?_ ?_ h.meets
  · cases e with
    | scalar loc v =>
      cases v with
      | number n => exact absurd rfl (hform n)
      | _ => rfl
    | _ => rfl
  · by_contra hs
    obtain ⟨_, _, _, rfl⟩ := Expr.exists_of_isSigned (by simpa using hs)
    exact hform.2.1 rfl

lemma grammar_spells : Grammar (Spells true) Spells where
  atom he := spells_atom he true
  parens he := he.parens
  opened hw hparts _ hform := (hparts.word hw).spells hform
  call he hparts _ := spells_of rfl rfl (meets_append he.needs hparts.meets)
  subscript he hparts := spells_of rfl rfl (meets_append he.needs hparts.meets)
  tight he := he
  die he := by
    refine spells_of rfl rfl ?_
    rw [Expr.spots, List.flatMap_singleton]
    exact meets_cons rfl he.needs
  dice hl hr := by
    refine spells_of rfl rfl ?_
    rw [Expr.spots, List.flatMap_cons, List.flatMap_singleton]
    exact meets_append hl.needs (meets_cons rfl hr.needs)
  loose he := he.weaken
  minus he := spells_minus he _
  form hparts _ hform := hparts.spells hform
  ended he := he.ended

lemma Text.meets {s : List Lexeme} {es : List Expr} (h : Text (Spells false) s es) :
    Meets (es.flatMap Expr.needs) (given [] .other s) := by
  induction h with
  | nil => exact .nil
  | skip _ ih => exact meets_cons rfl ih
  | cons he _ ih => exact meets_append he.needs ih

lemma meets_program {source : String} {ts : List Token} {es : List Expr}
    (h : program source ts = .ok es) :
    ∃ s rest, ts.map Token.lexeme = s ++ rest ∧ Meets (es.flatMap Expr.needs) (given [] .other s) := by
  obtain ⟨s, rest, hs, htext⟩ := text_of_program grammar_spells h
  exact ⟨s, rest, hs, htext.meets⟩

end DiceLang.Parser

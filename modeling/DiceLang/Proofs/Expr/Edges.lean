import DiceLang.Proofs.Expr.Words

/-! The left edge of an expression: with which words it can begin, and what can stand behind a name with
which it begins. -/

namespace DiceLang

namespace Precedence

def up : Precedence → Precedence
  | .sequence => .output
  | .output => .assign
  | .assign => .control
  | .control => .or
  | .or => .and
  | .and => .not
  | .not => .comparison
  | .comparison => .indexOf
  | .indexOf => .append
  | .append => .range
  | .range => .plus
  | .plus => .mult
  | .mult => .sign
  | .sign => .best
  | .best => .draw
  | .draw => .dice
  | .dice => .unary
  | .unary => .subscript
  | .subscript | .atom => .atom

lemma rank_up {p : Precedence} (h : p ≠ .atom) : p.up.rank = p.rank + 1 := by
  cases p with
  | atom => exact absurd rfl h
  | _ => rfl

def ofRank : Nat → Precedence
  | 0 => .sequence
  | n + 1 => (ofRank n).up

lemma ofRank_rank (p : Precedence) : ofRank p.rank = p := by cases p <;> rfl

lemma eq_of_rank_eq {p q : Precedence} (h : p.rank = q.rank) : p = q := by
  rw [← ofRank_rank p, h, ofRank_rank]

lemma lt_rank_up {p q : Precedence} (hp : p ≠ .atom) (h : q ≠ p) :
    q.rank < p.up.rank ↔ q.rank < p.rank := by
  have hup := rank_up hp
  have hne : q.rank ≠ p.rank := fun heq => h (eq_of_rank_eq heq)
  omega

end Precedence

namespace Lexeme

def lead? : Lexeme → Option Precedence
  | .name _ | .number _ | .text _ => some .atom
  | .mark .openParen | .mark .openBracket | .mark .openBrace => some .atom
  | .mark .plus | .mark .minus => some .sign
  | .mark .hash => some .unary
  | .keyword k =>
    match k with
    | .undef | .true | .false | .local | .outer | .global | .fun => some .atom
    | .count | .string | .boolean | .number | .list | .map | .sorted | .reversed | .shuffled =>
      some .unary
    | .d => some .dice
    | .draw => some .draw
    | .highest | .lowest | .first | .last => some .best
    | .not => some .not
    | .if | .while | .repeat | .for => some .control
    | .roll | .sample | .import => some .output
    | _ => none
  | _ => none

def link? : Lexeme → Option Precedence
  | .mark m =>
    match m with
    | .openParen | .openBracket | .dot => some .subscript
    | .star | .slash | .percent => some .mult
    | .plus | .minus => some .plus
    | .dots => some .range
    | .append => some .append
    | .equal | .notEqual | .less | .greater | .atMost | .atLeast | .same | .notSame =>
      some .comparison
    | .assign => some .assign
    | .semicolon => some .sequence
    | _ => none
  | .keyword k =>
    match k with
    | .d => some .dice
    | .in => some .indexOf
    | .and => some .and
    | .or => some .or
    | .for | .if | .limit => some .control
    | .as => some .output
    | _ => none
  | .text _ => some .output
  | _ => none

end Lexeme

namespace Printer

lemma enclosed_of_lt {e : Expr} {level : Precedence} (h : e.precedence.rank < level.rank)
    (ws : List Lexeme) :
    enclosed e level ws = .mark .openParen :: (ws ++ [.mark .closeParen]) := if_pos h

lemma enclosed_of_le {e : Expr} {level : Precedence} (h : level.rank ≤ e.precedence.rank)
    (ws : List Lexeme) : enclosed e level ws = ws := if_neg (Nat.not_lt.mpr h)

section

variable (look : Lookup)

lemma labelWordsAt_of_le (level : Precedence) {e : Expr} (h : level.rank ≤ e.precedence.rank) :
    labelWordsAt look level e = labelWords look e := enclosed_of_le h _

lemma labelWordsAt_up {e : Expr} {p : Precedence} (hp : p ≠ .atom) (h : e.precedence ≠ p) :
    labelWordsAt look p e = labelWordsAt look p.up e := by
  simp only [labelWordsAt, enclosed, Precedence.lt_rank_up hp h]

lemma labelWordsAt_assign (loc : Location) (left right : Expr) :
    labelWordsAt look .assign (.binary loc .assign left right) =
      labelWordsAt look .control left ++ .mark .assign :: labelWordsAt look .control right := by
  have hle : Precedence.assign.rank ≤ (Expr.binary loc .assign left right).precedence.rank := le_rfl
  rw [labelWordsAt_of_le look .assign hle, labelWords_binary look left right (by simp)]
  rfl

end

def Led (rank : Nat) (ws : List Lexeme) : Prop :=
  ∃ l t p, ws = l :: t ∧ l.lead? = some p ∧ rank ≤ p.rank

lemma Led.append {rank : Nat} {ws : List Lexeme} (h : Led rank ws) (vs : List Lexeme) :
    Led rank (ws ++ vs) := by
  obtain ⟨l, t, p, rfl, hl, hp⟩ := h
  exact ⟨l, t ++ vs, p, rfl, hl, hp⟩

lemma Led.mono {r s : Nat} {ws : List Lexeme} (h : Led s ws) (hr : r ≤ s) : Led r ws := by
  obtain ⟨l, t, p, rfl, hl, hp⟩ := h
  exact ⟨l, t, p, rfl, hl, hr.trans hp⟩

lemma Led.ne_nil {rank : Nat} {ws : List Lexeme} (h : Led rank ws) : ws ≠ [] := by
  obtain ⟨l, t, p, rfl, _, _⟩ := h
  simp

lemma rank_le_leftLevel (op : BinaryOp) (h : ∀ s, op ≠ .bestOf s) :
    op.precedence.rank ≤ (leftLevel op).rank := by
  cases op with
  | arithmetic op => cases op <;> decide
  | compare op => cases op <;> decide
  | bestOf s => exact absurd rfl (h s)
  | _ => decide

lemma led_keyword {k : Keyword} {p : Precedence} (h : (Lexeme.keyword k).lead? = some p)
    (ws : List Lexeme) : Led p.rank (.keyword k :: ws) :=
  ⟨_, _, p, rfl, h, le_rfl⟩

lemma led_atom {l : Lexeme} (h : l.lead? = some .atom) (rank : Nat) (hr : rank ≤ 19)
    (ws : List Lexeme) : Led rank (l :: ws) :=
  ⟨_, _, .atom, rfl, h, hr⟩

lemma led_opening (op : UnaryOp) (ws : List Lexeme) :
    Led op.precedence.rank (openingWords op ++ ws) := by
  cases op with
  | best s => cases s <;> exact led_keyword rfl _
  | convert k =>
    cases k with
    | undefined | function => exact led_atom rfl _ (by decide) _
    | _ => exact led_keyword rfl _
  | reorder r => cases r <;> exact led_keyword rfl _
  | plus | minus => exact ⟨_, _, .sign, rfl, rfl, le_rfl⟩
  | _ => exact led_keyword rfl _

lemma led_binary (op : BinaryOp) {left : List Lexeme} (h : Led (leftLevel op).rank left)
    (right : List Lexeme) : Led op.precedence.rank (binaryWords op left right) := by
  cases op with
  | bestOf s => cases s <;> exact led_keyword rfl _
  | drawMany => exact led_keyword rfl _
  | _ => exact Led.append (h.mono (rank_le_leftLevel _ (by simp))) _

def Linked (rank : Nat) (ws : List Lexeme) : Prop :=
  ∀ x l t, ws = .name x :: l :: t → ∃ p, l.link? = some p ∧ rank ≤ p.rank

lemma linked_of_ne {rank : Nat} {l : Lexeme} (h : ∀ x, l ≠ .name x) (t : List Lexeme) :
    Linked rank (l :: t) := by
  intro x l' t' heq
  exact absurd (List.cons.inj heq).1 (h x)

lemma linked_singleton (rank : Nat) (l : Lexeme) : Linked rank [l] := by
  intro x l' t heq
  simp at heq

lemma Linked.mono {r s : Nat} {ws : List Lexeme} (h : Linked s ws) (hr : r ≤ s) : Linked r ws := by
  intro x l t heq
  obtain ⟨p, hp, hle⟩ := h x l t heq
  exact ⟨p, hp, hr.trans hle⟩

lemma Linked.append {rank : Nat} {ws : List Lexeme} (h : Linked rank ws) {l : Lexeme}
    {p : Precedence} (hl : l.link? = some p) (hp : rank ≤ p.rank) (vs : List Lexeme) (hne : ws ≠ []) :
    Linked rank (ws ++ l :: vs) := by
  intro x l' t heq
  match ws, hne with
  | [w], _ =>
    obtain ⟨_, h'⟩ := List.cons.inj heq
    obtain ⟨rfl, _⟩ := List.cons.inj h'
    exact ⟨p, hl, hp⟩
  | w :: v :: ws, _ =>
    obtain ⟨rfl, h'⟩ := List.cons.inj heq
    obtain ⟨rfl, _⟩ := List.cons.inj h'
    exact h x v ws rfl

lemma link?_joint (op : BinaryOp) (h : ∀ s, op ≠ .bestOf s) (h' : op ≠ .drawMany) :
    op.joint.link? = some op.precedence := by
  cases op with
  | arithmetic op => cases op <;> rfl
  | compare op => cases op <;> rfl
  | bestOf s => exact absurd rfl (h s)
  | drawMany => exact absurd rfl h'
  | _ => rfl

lemma linked_binary (op : BinaryOp) {left : List Lexeme} (h : Linked (leftLevel op).rank left)
    (hne : left ≠ []) (right : List Lexeme) :
    Linked op.precedence.rank (binaryWords op left right) := by
  cases op with
  | bestOf s => exact linked_of_ne (by simp) _
  | drawMany => exact linked_of_ne (by simp) _
  | _ =>
    exact (h.mono (rank_le_leftLevel _ (by simp))).append (link?_joint _ (by simp) (by simp))
      le_rfl _ hne

end Printer

end DiceLang

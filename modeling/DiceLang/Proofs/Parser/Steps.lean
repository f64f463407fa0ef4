import DiceLang.Expr.Parser
import Mathlib

/-! What the smallest parsers do to the words that remain. -/

namespace DiceLang.Parser

variable {α β : Type}

def Cursor.words (c : Cursor) : List Lexeme := c.rest.map Token.lexeme

def Cursor.placeFrom (c : Cursor) (start : Span) : Location :=
  ⟨c.source, match c.last with | some last => start.union last | none => start⟩

lemma Cursor.lexeme_eq (c : Cursor) : c.lexeme = c.words.headD .eof := by
  obtain ⟨source, last, rest⟩ := c
  cases rest <;> rfl

lemma Cursor.words_advance (c : Cursor) : c.advance.words = c.words.tail := by
  obtain ⟨source, last, rest⟩ := c
  cases rest <;> rfl

lemma Cursor.lexeme_of_words {c : Cursor} {l : Lexeme} {ls : List Lexeme} (h : c.words = l :: ls) :
    c.lexeme = l := by
  rw [c.lexeme_eq, h, List.headD_cons]

lemma Cursor.advance_of_words {c : Cursor} {l : Lexeme} {ls : List Lexeme} (h : c.words = l :: ls) :
    c.advance.words = ls := by
  rw [c.words_advance, h, List.tail_cons]

lemma Cursor.length_rest (c : Cursor) : c.rest.length = c.words.length := by
  rw [Cursor.words, List.length_map]

lemma bind_eq_ok {p : Parse α} {f : α → Parse β} {c d : Cursor} {b : β} :
    (p >>= f) c = .ok b d ↔ ∃ a c', p c = .ok a c' ∧ f a c' = .ok b d := by
  simp only [bind, EStateM.bind]
  cases p c <;> simp

lemma run_bind {p : Parse α} {c d : Cursor} {a : α} (h : p c = .ok a d) (f : α → Parse β) :
    (p >>= f) c = f a d := by
  simp only [bind, EStateM.bind, h]

@[simp] lemma run_pure (a : α) (c : Cursor) : (pure a : Parse α) c = .ok a c := rfl

@[simp] lemma run_peek (f : Lexeme → Parse β) (c : Cursor) : (peek >>= f) c = f c.lexeme c := rfl

@[simp] lemma run_here (f : Span → Parse β) (c : Cursor) : (here >>= f) c = f c.span c := rfl

@[simp] lemma run_advance (f : Unit → Parse β) (c : Cursor) :
    (advance >>= f) c = f () c.advance := rfl

@[simp] lemma run_location (span : Span) (f : Location → Parse β) (c : Cursor) :
    (location span >>= f) c = f ⟨c.source, span⟩ c := rfl

@[simp] lemma run_locationFrom (start : Span) (f : Location → Parse β) (c : Cursor) :
    (locationFrom start >>= f) c = f (c.placeFrom start) c := rfl

@[simp] lemma run_remaining (f : List Token → Parse β) (c : Cursor) :
    (remaining >>= f) c = f c.rest c := rfl

@[simp] lemma run_fail (fault : SyntaxFault) (c : Cursor) :
    (fail fault : Parse α) c = .error ⟨fault, ⟨c.source, c.span⟩⟩ c := rfl

lemma accept_eq (l : Lexeme) (c : Cursor) :
    accept l c = if c.lexeme = l then .ok true c.advance else .ok false c := by
  simp only [accept, run_peek]
  split <;> rfl

@[simp] lemma run_accept (l : Lexeme) (f : Bool → Parse β) (c : Cursor) :
    (accept l >>= f) c = if c.lexeme = l then f true c.advance else f false c := by
  by_cases h : c.lexeme = l
  · rw [run_bind (by rw [accept_eq, if_pos h]), if_pos h]
  · rw [run_bind (by rw [accept_eq, if_neg h]), if_neg h]

lemma expect_eq (l : Lexeme) (c : Cursor) :
    expect l c = if c.lexeme = l then .ok c.span c.advance
      else .error ⟨.missing l, ⟨c.source, c.span⟩⟩ c := by
  simp only [expect, run_here, run_accept]
  split <;> rfl

lemma run_expect {l : Lexeme} {c : Cursor} (h : c.lexeme = l) (f : Span → Parse β) :
    (expect l >>= f) c = f c.span c.advance :=
  run_bind (by rw [expect_eq, if_pos h]) f

lemma expect_ok {l : Lexeme} {f : Span → Parse β} {c d : Cursor} {b : β}
    (h : (expect l >>= f) c = .ok b d) : c.lexeme = l ∧ f c.span c.advance = .ok b d := by
  obtain ⟨span, c', h', h⟩ := bind_eq_ok.mp h
  rw [expect_eq] at h'
  split at h'
  · obtain ⟨rfl, rfl⟩ := EStateM.Result.ok.inj h'
    exact ⟨‹_›, h⟩
  · simp at h'

lemma run_expectName {fault : SyntaxFault} {c : Cursor} {s : String} (h : c.lexeme = .name s)
    (f : String × Span → Parse β) : (expectName fault >>= f) c = f (s, c.span) c.advance := by
  refine run_bind ?_ f
  simp only [expectName, run_peek, h]
  rfl

lemma expectName_ok {fault : SyntaxFault} {f : String × Span → Parse β} {c d : Cursor} {b : β}
    (h : (expectName fault >>= f) c = .ok b d) :
    ∃ s, c.lexeme = .name s ∧ f (s, c.span) c.advance = .ok b d := by
  cases hl : c.lexeme with
  | name s =>
    rw [run_expectName hl] at h
    exact ⟨s, rfl, h⟩
  | _ =>
    obtain ⟨x, c', h', _⟩ := bind_eq_ok.mp h
    simp [expectName, hl] at h'

lemma acceptNameBefore_eq (m : Mark) (c : Cursor) :
    acceptNameBefore m c = match c.nameBefore? m with
      | some s => .ok (some s) c.advance.advance
      | none => .ok none c := by
  have hg : acceptNameBefore m c = (match c.nameBefore? m with
    | some s => do
      advance
      advance
      return some s
    | none => return none : Parse (Option String)) c := rfl
  rw [hg]
  cases c.nameBefore? m <;> rfl

lemma Cursor.nameBefore?_eq_some {c : Cursor} {m : Mark} {s : String} :
    c.nameBefore? m = some s ↔ ∃ ls, c.words = .name s :: .mark m :: ls := by
  obtain ⟨source, last, rest⟩ := c
  unfold Cursor.nameBefore? Cursor.words
  split
  next s' span k span' rest h =>
    simp only at h
    subst h
    simp only [Option.ite_none_right_eq_some, Option.some.injEq, List.map_cons, List.cons.injEq,
      Lexeme.name.injEq, Lexeme.mark.injEq]
    constructor
    · rintro ⟨rfl, rfl⟩
      exact ⟨_, rfl, rfl, rfl⟩
    · rintro ⟨_, rfl, rfl, _⟩
      exact ⟨rfl, rfl⟩
  next h =>
    simp only [reduceCtorEq, false_iff, not_exists]
    intro ls hw
    match rest, hw with
    | ⟨_, span⟩ :: ⟨_, span'⟩ :: rest, hw =>
      simp only [List.map_cons, List.cons.injEq] at hw
      obtain ⟨rfl, rfl, _⟩ := hw
      exact h _ _ _ _ _ rfl

end DiceLang.Parser

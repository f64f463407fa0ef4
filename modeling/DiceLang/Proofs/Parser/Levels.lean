import DiceLang.Proofs.Parser.Steps
import DiceLang.Proofs.Expr.Edges

/-! The levels of the grammar. An expression that begins and ends as one level allows is read alike by every
weaker level. -/

namespace DiceLang

namespace Parser

open Printer (Led)

variable {α β : Type}

def parserAt (again : Again) : Precedence → Parse Expr
  | .sequence => sequence again
  | .output => output again
  | .assign => assignment again
  | .control => control again
  | .or => disjunction again
  | .and => conjunction again
  | .not => negation again
  | .comparison => comparison again
  | .indexOf => indexOf again
  | .append => append again
  | .range => range again
  | .plus => additive again
  | .mult => multiplicative again
  | .sign => sign again
  | .best => best again
  | .draw => drawing again
  | .dice => dice again
  | .unary => unary again
  | .subscript => suffixed again
  | .atom => primary again

/-- The parser reads the words `ws` before the words `rest` and goes on with `k` from a result with `Q`. -/
def Comes (p : Parse β) (k : α → Parse β) (ws rest : List Lexeme) (Q : α → Prop) : Prop :=
  ∀ c, c.words = ws ++ rest → ∃ a c', p c = k a c' ∧ c'.words = rest ∧ Q a

abbrev Gives (p : Parse α) (ws rest : List Lexeme) (Q : α → Prop) : Prop := Comes p pure ws rest Q

section Rules

variable {γ : Type} {p : Parse α} {f : α → Parse β} {k : γ → Parse β} {ws vs rest : List Lexeme}
  {l : Lexeme} {Q : α → Prop} {R : γ → Prop}

lemma comes_end {a : γ} (ha : R a) : Comes (k a) k [] rest R := fun c hc => ⟨a, c, rfl, hc, ha⟩

lemma Gives.bind (hp : Gives p ws (vs ++ rest) Q) (hf : ∀ a, Q a → Comes (f a) k vs rest R) :
    Comes (p >>= f) k (ws ++ vs) rest R := by
  intro c hc
  obtain ⟨a, c₁, hrun, hw, ha⟩ := hp c (by rw [hc, List.append_assoc])
  obtain ⟨b, c₂, hrun', hw', hb⟩ := hf a ha c₁ hw
  exact ⟨b, c₂, (run_bind hrun f).trans hrun', hw', hb⟩

lemma Gives.last (hp : Gives p ws rest Q) (hf : ∀ a, Q a → Comes (f a) k [] rest R) :
    Comes (p >>= f) k ws rest R := by
  rw [← List.append_nil ws]
  exact Gives.bind hp hf

lemma comes_here {f : Span → Parse β} (h : ∀ span, Comes (f span) k ws rest R) :
    Comes (here >>= f) k ws rest R :=
  fun c hc => h c.span c hc

lemma comes_location {span : Span} {f : Location → Parse β} (h : ∀ loc, Comes (f loc) k ws rest R) :
    Comes (location span >>= f) k ws rest R :=
  fun c hc => h _ c hc

lemma comes_locationFrom {start : Span} {f : Location → Parse β}
    (h : ∀ loc, Comes (f loc) k ws rest R) : Comes (locationFrom start >>= f) k ws rest R :=
  fun c hc => h _ c hc

lemma comes_remaining {f : List Token → Parse β} (h : ∀ bound, Comes (f bound) k ws rest R) :
    Comes (remaining >>= f) k ws rest R :=
  fun c hc => h c.rest c hc

lemma comes_peek {f : Lexeme → Parse β} (h : Comes (f ((ws ++ rest).headD .eof)) k ws rest R) :
    Comes (peek >>= f) k ws rest R := by
  intro c hc
  rw [run_peek, c.lexeme_eq, hc]
  exact h c hc

lemma comes_advance {f : Unit → Parse β} (h : Comes (f ()) k ws rest R) :
    Comes (advance >>= f) k (l :: ws) rest R :=
  fun c hc => h c.advance (Cursor.advance_of_words hc)

lemma comes_accept {p q : Parse β} (h : Comes p k ws rest R) :
    Comes (do if ← accept l then p else q) k (l :: ws) rest R := by
  intro c hc
  rw [run_accept, if_pos (Cursor.lexeme_of_words hc)]
  exact h c.advance (Cursor.advance_of_words hc)

lemma comes_refuse {p q : Parse β} (hne : (ws ++ rest).headD .eof ≠ l) (h : Comes q k ws rest R) :
    Comes (do if ← accept l then p else q) k ws rest R := by
  intro c hc
  rw [run_accept, if_neg (by rwa [c.lexeme_eq, hc])]
  exact h c hc

lemma comes_expect {f : Span → Parse β} (h : ∀ span, Comes (f span) k ws rest R) :
    Comes (expect l >>= f) k (l :: ws) rest R := by
  intro c hc
  rw [run_expect (Cursor.lexeme_of_words hc)]
  exact h c.span c.advance (Cursor.advance_of_words hc)

lemma comes_expectName {fault : SyntaxFault} {name : String} {f : String × Span → Parse β}
    (h : ∀ span, Comes (f (name, span)) k ws rest R) :
    Comes (expectName fault >>= f) k (.name name :: ws) rest R := by
  intro c hc
  rw [run_expectName (Cursor.lexeme_of_words hc)]
  exact h c.span c.advance (Cursor.advance_of_words hc)

end Rules

def Stops (rank : Nat) (ws : List Lexeme) : Prop :=
  ∀ p, (ws.headD .eof).link? = some p → p.rank < rank

lemma Stops.mono {r s : Nat} {ws : List Lexeme} (h : Stops r ws) (hr : r ≤ s) : Stops s ws :=
  fun p hp => Nat.lt_of_lt_of_le (h p hp) hr

lemma stops_of_none {l : Lexeme} (h : l.link? = none) (rank : Nat) (ws : List Lexeme) :
    Stops rank (l :: ws) := by
  intro p hp
  rw [List.headD_cons, h] at hp
  simp at hp

lemma stops_of_link {l : Lexeme} {p : Precedence} (h : l.link? = some p) {rank : Nat}
    (hr : p.rank < rank) (ws : List Lexeme) : Stops rank (l :: ws) := by
  intro q hq
  rw [List.headD_cons, h] at hq
  obtain rfl := Option.some.inj hq
  exact hr

def Links (f : Lexeme → Option α) (rank : Nat) : Prop :=
  ∀ l a, f l = some a → ∃ p, l.link? = some p ∧ rank ≤ p.rank

def Opens (f : Lexeme → Option α) (rank : Nat) : Prop :=
  ∀ l a, f l = some a → ∃ p, l.lead? = some p ∧ p.rank ≤ rank

lemma Stops.eq_none {f : Lexeme → Option α} {rank : Nat} {rest : List Lexeme} (hs : Stops rank rest)
    (hf : Links f rank) : f (rest.headD .eof) = none := by
  by_contra hn
  obtain ⟨a, ha⟩ := Option.ne_none_iff_exists'.mp hn
  obtain ⟨p, hp, hle⟩ := hf _ a ha
  exact absurd (hs p hp) (Nat.not_lt.mpr hle)

lemma Stops.ne {rank : Nat} {rest : List Lexeme} (hs : Stops rank rest) {l : Lexeme} {p : Precedence}
    (hl : l.link? = some p) (hp : rank ≤ p.rank) : rest.headD .eof ≠ l := by
  rintro rfl
  exact absurd (hs p hl) (Nat.not_lt.mpr hp)

section Led

variable {rank : Nat} {ws : List Lexeme}

lemma led_head (h : Led rank ws) (rest : List Lexeme) :
    ∃ p, ((ws ++ rest).headD .eof).lead? = some p ∧ rank ≤ p.rank := by
  obtain ⟨l, t, p, rfl, hp, hle⟩ := h
  exact ⟨p, hp, hle⟩

lemma led_eq_none (h : Led rank ws) {f : Lexeme → Option α} {k : Nat} (hf : Opens f k) (hk : k < rank)
    (rest : List Lexeme) : f ((ws ++ rest).headD .eof) = none := by
  obtain ⟨p, hp, hle⟩ := led_head h rest
  by_contra hn
  obtain ⟨a, ha⟩ := Option.ne_none_iff_exists'.mp hn
  obtain ⟨q, hq, hqk⟩ := hf _ a ha
  obtain rfl := Option.some.inj (hp.symm.trans hq)
  omega

lemma led_ne (h : Led rank ws) {l : Lexeme} (hl : ∀ p, l.lead? = some p → p.rank < rank)
    (rest : List Lexeme) : (ws ++ rest).headD .eof ≠ l := by
  obtain ⟨p, hp, hle⟩ := led_head h rest
  rintro rfl
  exact absurd (hl p hp) (Nat.not_lt.mpr hle)

end Led

def Covers (op? : Lexeme → Option BinaryOp) (p : Precedence) : Prop :=
  ∀ l op, op? l = some op → l = op.joint ∧ op.precedence = p

lemma covers_or : Covers orOp? .or := by
  rintro (_ | _ | _ | k | m | _) op h
  case keyword => cases k <;> cases h; exact ⟨rfl, rfl⟩
  all_goals cases h

lemma covers_and : Covers andOp? .and := by
  rintro (_ | _ | _ | k | m | _) op h
  case keyword => cases k <;> cases h; exact ⟨rfl, rfl⟩
  all_goals cases h

lemma covers_indexOf : Covers indexOfOp? .indexOf := by
  rintro (_ | _ | _ | k | m | _) op h
  case keyword => cases k <;> cases h; exact ⟨rfl, rfl⟩
  all_goals cases h

lemma covers_dice : Covers diceOp? .dice := by
  rintro (_ | _ | _ | k | m | _) op h
  case keyword => cases k <;> cases h; exact ⟨rfl, rfl⟩
  all_goals cases h

lemma covers_comparison : Covers comparisonOp? .comparison := by
  rintro (_ | _ | _ | k | m | _) op h
  case mark => cases m <;> cases h <;> exact ⟨rfl, rfl⟩
  all_goals cases h

lemma covers_append : Covers appendOp? .append := by
  rintro (_ | _ | _ | k | m | _) op h
  case mark => cases m <;> cases h; exact ⟨rfl, rfl⟩
  all_goals cases h

lemma covers_range : Covers rangeOp? .range := by
  rintro (_ | _ | _ | k | m | _) op h
  case mark => cases m <;> cases h; exact ⟨rfl, rfl⟩
  all_goals cases h

lemma covers_additive : Covers additiveOp? .plus := by
  rintro (_ | _ | _ | k | m | _) op h
  case mark => cases m <;> cases h <;> exact ⟨rfl, rfl⟩
  all_goals cases h

lemma covers_multiplicative : Covers multiplicativeOp? .mult := by
  rintro (_ | _ | _ | k | m | _) op h
  case mark => cases m <;> cases h <;> exact ⟨rfl, rfl⟩
  all_goals cases h

lemma covers_assign : Covers assignOp? .assign := by
  rintro (_ | _ | _ | k | m | _) op h
  case mark => cases m <;> cases h; exact ⟨rfl, rfl⟩
  all_goals cases h

lemma Covers.links {op? : Lexeme → Option BinaryOp} {p : Precedence} (h : Covers op? p)
    (hb : p ≠ .best) (hd : p ≠ .draw) : Links op? p.rank := by
  intro l op hop
  obtain ⟨rfl, rfl⟩ := h l op hop
  refine ⟨op.precedence, Printer.link?_joint op ?_ ?_, le_rfl⟩
  · rintro s rfl
    exact hb rfl
  · rintro rfl
    exact hd rfl

lemma opens_unaryOp? : Opens unaryOp? 17 := by
  rintro (_ | _ | _ | k | m | _) op h
  case keyword => cases k <;> cases h <;> exact ⟨.unary, rfl, le_rfl⟩
  case mark => cases m <;> cases h; exact ⟨.unary, rfl, le_rfl⟩
  all_goals cases h

lemma opens_selector? : Opens selector? 14 := by
  rintro (_ | _ | _ | k | m | _) op h
  case keyword => cases k <;> cases h <;> exact ⟨.best, rfl, le_rfl⟩
  all_goals cases h

lemma opens_signOp? : Opens signOp? 13 := by
  rintro (_ | _ | _ | k | m | _) op h
  case mark => cases m <;> cases h <;> exact ⟨.sign, rfl, le_rfl⟩
  all_goals cases h

lemma opens_outputMode? : Opens outputMode? 1 := by
  rintro (_ | _ | _ | k | m | _) op h
  case keyword => cases k <;> cases h <;> exact ⟨.output, rfl, le_rfl⟩
  all_goals cases h

section Weaker

variable {again : Again} {ws rest : List Lexeme} {Q : Expr → Prop} {e : Expr}

lemma gives_chainFrom {op? : Lexeme → Option BinaryOp} (operand : Parse Expr) {rank : Nat}
    (hop : Links op? rank) (hs : Stops rank rest) (bound : List Token) (he : Q e) :
    Gives (chainFrom op? operand bound e) [] rest Q := by
  cases bound with
  | nil => exact comes_end he
  | cons t bound =>
    refine comes_peek ?_
    rw [List.nil_append, hs.eq_none hop]
    exact comes_end he

lemma gives_suffixes (hs : Stops 18 rest) (bound : List Token) (he : Q e) :
    Gives (suffixes again bound e) [] rest Q := by
  cases bound with
  | nil => exact comes_end he
  | cons t bound =>
    exact comes_refuse (hs.ne (p := .subscript) rfl le_rfl) <|
      comes_refuse (hs.ne (p := .subscript) rfl le_rfl) <|
        comes_refuse (hs.ne (p := .subscript) rfl le_rfl) (comes_end he)

lemma gives_sequenceFrom (hs : Stops 0 rest) (bound : List Token) (he : Q e) :
    Gives (sequenceFrom again bound e) [] rest Q := by
  cases bound with
  | nil => exact comes_end he
  | cons t bound => exact comes_refuse (hs.ne (p := .sequence) rfl le_rfl) (comes_end he)

lemma gives_chain {op? : Lexeme → Option BinaryOp} {operand : Parse Expr} {rank : Nat}
    (h : Gives operand ws rest Q) (hop : Links op? rank) (hs : Stops rank rest) :
    Gives (chain op? operand) ws rest Q :=
  h.last fun _ he => comes_remaining fun bound => gives_chainFrom operand hop hs bound he

lemma gives_single {op? : Lexeme → Option BinaryOp} {operand : Parse Expr} {rank : Nat}
    (h : Gives operand ws rest Q) (hop : Links op? rank) (hs : Stops rank rest) :
    Gives (single op? operand) ws rest Q := by
  refine h.last fun e he => comes_peek ?_
  rw [List.nil_append, hs.eq_none hop]
  exact comes_end he

lemma gives_suffixed (h : Gives (primary again) ws rest Q) (hs : Stops 18 rest) :
    Gives (suffixed again) ws rest Q :=
  h.last fun _ he => comes_remaining fun bound => gives_suffixes hs bound he

lemma gives_unary (h : Gives (suffixed again) ws rest Q) (hl : Led 18 ws) :
    Gives (unary again) ws rest Q := by
  refine comes_here fun start => comes_peek ?_
  rw [led_eq_none hl opens_unaryOp? (by decide)]
  exact h

lemma gives_firstDie (h : Gives (unary again) ws rest Q) (hl : Led 17 ws) :
    Gives (firstDie again) ws rest Q :=
  comes_here fun _ => comes_refuse (led_ne hl (by rintro p ⟨⟩; decide) rest) h

lemma gives_dice (h : Gives (unary again) ws rest Q) (hl : Led 17 ws) (hs : Stops 16 rest) :
    Gives (dice again) ws rest Q :=
  (gives_firstDie h hl).last fun _ he => comes_remaining fun bound =>
    gives_chainFrom _ (covers_dice.links (by simp) (by simp)) hs bound he

lemma gives_drawing (h : Gives (dice again) ws rest Q) (hl : Led 16 ws) :
    Gives (drawing again) ws rest Q :=
  comes_here fun _ => comes_refuse (led_ne hl (by rintro p ⟨⟩; decide) rest) h

lemma gives_best (h : Gives (drawing again) ws rest Q) (hl : Led 15 ws) :
    Gives (best again) ws rest Q := by
  refine comes_here fun start => comes_peek ?_
  rw [led_eq_none hl opens_selector? (by decide)]
  exact h

lemma gives_sign (h : Gives (best again) ws rest Q) (hl : Led 14 ws) :
    Gives (sign again) ws rest Q := by
  refine comes_here fun start => comes_peek ?_
  rw [led_eq_none hl opens_signOp? (by decide)]
  exact h

lemma gives_negation (h : Gives (comparison again) ws rest Q) (hl : Led 7 ws) :
    Gives (negation again) ws rest Q :=
  comes_here fun _ => comes_refuse (led_ne hl (by rintro p ⟨⟩; decide) rest) h

lemma gives_uncontrolled (hl : Led 4 ws) (h : Gives (do
      let e ← disjunction again
      if ← accept (.keyword .for) then forEach again e.location.span (some e)
      else return e) ws rest Q) : Gives (control again) ws rest Q := by
  have hne {k : Keyword} (hk : (Lexeme.keyword k).lead? = some .control) :
      (ws ++ rest).headD .eof ≠ .keyword k :=
    led_ne hl (fun p hp => by obtain rfl := Option.some.inj (hk.symm.trans hp); decide) rest
  exact comes_here fun _ => comes_refuse (hne rfl) <| comes_refuse (hne rfl) <|
    comes_refuse (hne rfl) <| comes_refuse (hne rfl) h

lemma gives_control (h : Gives (disjunction again) ws rest Q) (hl : Led 4 ws)
    (hs : Stops 3 rest) : Gives (control again) ws rest Q :=
  gives_uncontrolled hl <| h.last fun _ he =>
    comes_refuse (hs.ne (p := .control) rfl le_rfl) (comes_end he)

lemma gives_output (h : Gives (assignment again) ws rest Q) (hl : Led 2 ws) :
    Gives (output again) ws rest Q := by
  refine comes_here fun start => comes_peek ?_
  rw [led_eq_none hl opens_outputMode? (by decide)]
  exact comes_refuse (led_ne hl (by rintro p ⟨⟩; decide) rest) h

lemma gives_sequence (h : Gives (output again) ws rest Q) (hs : Stops 0 rest) :
    Gives (sequence again) ws rest Q :=
  h.last fun _ he => comes_remaining fun bound => gives_sequenceFrom hs bound he

lemma Gives.down {p : Precedence} (hp : p ≠ .atom) (h : Gives (parserAt again p.up) ws rest Q)
    (hl : Led p.up.rank ws) (hs : Stops p.rank rest) : Gives (parserAt again p) ws rest Q := by
  cases p with
  | sequence => exact gives_sequence h hs
  | output => exact gives_output h hl
  | assign => exact gives_single h (covers_assign.links (by simp) (by simp)) hs
  | control => exact gives_control h hl hs
  | or => exact gives_chain h (covers_or.links (by simp) (by simp)) hs
  | and => exact gives_chain h (covers_and.links (by simp) (by simp)) hs
  | not => exact gives_negation h hl
  | comparison => exact gives_single h (covers_comparison.links (by simp) (by simp)) hs
  | indexOf => exact gives_single h (covers_indexOf.links (by simp) (by simp)) hs
  | append => exact gives_single h (covers_append.links (by simp) (by simp)) hs
  | range => exact gives_single h (covers_range.links (by simp) (by simp)) hs
  | plus => exact gives_chain h (covers_additive.links (by simp) (by simp)) hs
  | mult => exact gives_chain h (covers_multiplicative.links (by simp) (by simp)) hs
  | sign => exact gives_sign h hl
  | best => exact gives_best h hl
  | draw => exact gives_drawing h hl
  | dice => exact gives_dice h hl hs
  | unary => exact gives_unary h hl
  | subscript => exact gives_suffixed h hs
  | atom => exact absurd rfl hp

lemma Gives.lower {p q : Precedence} (h : Gives (parserAt again q) ws rest Q) (hl : Led q.rank ws)
    (hpq : p.rank ≤ q.rank) (hs : Stops p.rank rest) : Gives (parserAt again p) ws rest Q := by
  -- by the distance of the two levels, one level at a time
  induction hk : q.rank - p.rank generalizing p with
  | zero =>
    have hpq' : p = q := Precedence.eq_of_rank_eq (by omega)
    rw [hpq']
    exact h
  | succ k ih =>
    have hp : p ≠ .atom := by
      rintro rfl
      cases q <;> simp [Precedence.rank] at hk
    have hr := Precedence.rank_up hp
    refine Gives.down hp ?_ (hl.mono (by omega)) hs
    exact ih (by omega) (hs.mono (by omega)) (by omega)

end Weaker

end Parser

end DiceLang

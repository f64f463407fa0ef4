import DiceLang.Proofs.Parser.Levels
import DiceLang.Proofs.Expr.Bare

/-! Words that are read to a tree, wherever they stand. Operators that group to the left are read along their
spine: what has been read so far is the left operand of what follows. -/

namespace DiceLang.Parser

open Printer (Led Linked)

def isSpine : Precedence → Bool
  | .sequence | .or | .and | .plus | .mult | .subscript => true
  | _ => false

def restAt (again : Again) : Precedence → List Token → Expr → Parse Expr
  | .sequence => sequenceFrom again
  | .or => chainFrom orOp? (conjunction again)
  | .and => chainFrom andOp? (negation again)
  | .plus => chainFrom additiveOp? (multiplicative again)
  | .mult => chainFrom multiplicativeOp? (sign again)
  | .subscript => suffixes again
  | _ => fun _ e => pure e

/-- The parser reads the words `ws` to an expression with `Q` and goes on from there with `more`, which has
tokens enough for all that is left. -/
def Leads (p : Parse Expr) (more : List Token → Expr → Parse Expr) (ws rest : List Lexeme)
    (Q : Expr → Prop) : Prop :=
  Comes p (fun x : List Token × Expr => more x.1 x.2) ws rest fun x => rest.length ≤ x.1.length ∧ Q x.2

section

variable {again : Again} {ws us rest : List Lexeme} {Q R : Expr → Prop} {p : Precedence}
  {first : Parse Expr} {more : List Token → Expr → Parse Expr}

lemma parserAt_spine (again : Again) (h : isSpine p = true) :
    parserAt again p = (do
      let e ← parserAt again p.up
      restAt again p (← remaining) e) := by
  cases p with
  | sequence | or | and | plus | mult | subscript => rfl
  | _ => simp [isSpine] at h

lemma gives_restAt (h : isSpine p = true) (hs : Stops p.rank rest) (bound : List Token) {e : Expr}
    (he : Q e) : Gives (restAt again p bound e) [] rest Q := by
  cases p with
  | sequence => exact gives_sequenceFrom hs bound he
  | or => exact gives_chainFrom _ (covers_or.links (by simp) (by simp)) hs bound he
  | and => exact gives_chainFrom _ (covers_and.links (by simp) (by simp)) hs bound he
  | plus => exact gives_chainFrom _ (covers_additive.links (by simp) (by simp)) hs bound he
  | mult => exact gives_chainFrom _ (covers_multiplicative.links (by simp) (by simp)) hs bound he
  | subscript => exact gives_suffixes hs bound he
  | _ => simp [isSpine] at h

lemma Gives.leads (h : Gives first ws rest Q) :
    Leads (do let e ← first; more (← remaining) e) more ws rest Q := by
  refine h.last fun e he c hc => ⟨(c.rest, e), c, rfl, hc, ?_, he⟩
  rw [c.length_rest, hc]
  rfl

lemma Leads.gives (h : Leads first more ws rest Q)
    (hm : ∀ bound e, Q e → Gives (more bound e) [] rest Q) : Gives first ws rest Q := by
  intro c hc
  obtain ⟨⟨bound, e⟩, c', hrun, hw, -, he⟩ := h c hc
  obtain ⟨e', c'', hrun', hw', he'⟩ := hm bound e he c' hw
  exact ⟨e', c'', hrun.trans hrun', hw', he'⟩

lemma Leads.step (h : Leads first more ws (us ++ rest) Q) (hne : us ≠ [])
    (hstep : ∀ t bound e, Q e → Comes (more (t :: bound) e) (more bound) us rest R) :
    Leads first more (ws ++ us) rest R := by
  intro c hc
  obtain ⟨⟨bound, e⟩, c₁, hrun, hw, hlen, he⟩ := h c (by rw [hc, List.append_assoc])
  have hpos := List.length_pos_iff.mpr hne
  rw [List.length_append] at hlen
  cases bound with
  | nil =>
    rw [List.length_nil] at hlen
    omega
  | cons t bound =>
    obtain ⟨e', c₂, hrun', hw', he'⟩ := hstep t bound e he c₁ hw
    refine ⟨(bound, e'), c₂, hrun.trans hrun', hw', ?_, he'⟩
    rw [List.length_cons] at hlen
    dsimp only
    omega

lemma Leads.chain {operand : Parse Expr} {op? : Lexeme → Option BinaryOp} {op : BinaryOp}
    {vs : List Lexeme} {left right : Expr}
    (h : Leads first (chainFrom op? operand) ws (op.joint :: (vs ++ rest)) (·.Alike left))
    (hop : op? op.joint = some op) (hr : Gives operand vs rest (·.Alike right)) (loc : Location) :
    Leads first (chainFrom op? operand) (ws ++ op.joint :: vs) rest
      (·.Alike (.binary loc op left right)) := by
  refine Leads.step h (by simp) fun t bound l hl => comes_peek ?_
  rw [List.cons_append, List.headD_cons, hop]
  exact comes_advance (hr.last fun r hr => comes_end (hl.binary hr _ _ _))

end

def Level.precedence : Level → Precedence
  | .sequence => .sequence
  | .control => .control
  | .disjunction => .or
  | .negation => .not
  | .unary => .unary

lemma parseAt_succ (depth : Nat) (level : Level) :
    parseAt (depth + 1) level = parserAt (parseAt depth) level.precedence := by
  cases level <;> rfl

lemma gives_compound {again : Again} {l : Lexeme} {ws rest : List Lexeme} {Q : Expr → Prop}
    (hl : ∀ loc, atom? loc l = none) (h : ∀ start, Gives (compound again start) (l :: ws) rest Q) :
    Gives (primary again) (l :: ws) rest Q := by
  refine comes_here fun start => comes_peek (comes_location fun loc => ?_)
  rw [List.cons_append, List.headD_cons, hl]
  exact h start

lemma gives_parenthesised {again : Again} {ws rest : List Lexeme} {Q : Expr → Prop}
    (h : Gives (again .sequence) ws (.mark .closeParen :: rest) Q) :
    Gives (primary again) (.mark .openParen :: (ws ++ [.mark .closeParen])) rest Q := by
  refine gives_compound (fun _ => rfl) fun start => ?_
  refine comes_refuse (by simp) <| comes_refuse (by simp) <| comes_refuse (by simp) <| comes_accept ?_
  exact h.bind fun e he => comes_expect fun _ => comes_end he

structure Derives (ws : List Lexeme) (p : Precedence) (t : Expr) : Prop where
  led : Led p.rank ws
  linked : Linked p.rank ws
  gives : ∀ depth rest, ws.length ≤ depth → Stops p.rank rest →
    Gives (parserAt (parseAt depth) p) ws rest (·.Alike t)
  leads : isSpine p = true → ∀ depth rest, ws.length ≤ depth → Stops (p.rank + 1) rest →
    Leads (parserAt (parseAt depth) p) (restAt (parseAt depth) p) ws rest (·.Alike t)

section

variable {ws rest : List Lexeme} {p q : Precedence} {t t' : Expr}

lemma Derives.congr (h : Derives ws p t) (ht : t.Alike t') : Derives ws p t' := by
  have hq : (fun e : Expr => e.Alike t) = (fun e : Expr => e.Alike t') :=
    funext fun e => by rw [Expr.Alike, Expr.Alike, ht]
  refine ⟨h.led, h.linked, ?_, ?_⟩
  · rw [← hq]
    exact h.gives
  · rw [← hq]
    exact h.leads

lemma Derives.of_gives (hl : Led p.rank ws) (hk : Linked p.rank ws) (hn : isSpine p = false)
    (hcore : ∀ depth rest, ws.length ≤ depth → Stops p.rank rest →
      Gives (parserAt (parseAt depth) p) ws rest (·.Alike t)) : Derives ws p t :=
  ⟨hl, hk, hcore, fun hs => by simp [hn] at hs⟩

lemma Derives.of_leads (hl : Led p.rank ws) (hk : Linked p.rank ws) (hs : isSpine p = true)
    (hspine : ∀ depth rest, ws.length ≤ depth → Stops (p.rank + 1) rest →
      Leads (parserAt (parseAt depth) p) (restAt (parseAt depth) p) ws rest (·.Alike t)) :
    Derives ws p t := by
  refine ⟨hl, hk, ?_, fun _ => hspine⟩
  intro depth rest hd hr
  exact (hspine depth rest hd (hr.mono (Nat.le_succ _))).gives
    fun bound e he => gives_restAt hs hr bound he

lemma Derives.weaken (h : Derives ws p t) (hq : q.rank ≤ p.rank) : Derives ws q t := by
  have hgives {q : Precedence} (hq : q.rank ≤ p.rank) (depth : Nat) (rest : List Lexeme)
      (hd : ws.length ≤ depth) (hs : Stops q.rank rest) :
      Gives (parserAt (parseAt depth) q) ws rest (·.Alike t) :=
    (h.gives depth rest hd (hs.mono hq)).lower h.led hq hs
  refine ⟨h.led.mono hq, h.linked.mono hq, hgives hq, ?_⟩
  intro hspine depth rest hd hs
  by_cases hpq : q = p
  · subst hpq
    exact h.leads hspine depth rest hd hs
  · have hatom : q ≠ .atom := by
      rintro rfl
      simp [isSpine] at hspine
    have hup := Precedence.rank_up hatom
    have hne : q.rank ≠ p.rank := fun heq => hpq (Precedence.eq_of_rank_eq heq)
    rw [parserAt_spine _ hspine]
    exact (hgives (q := q.up) (by omega) depth rest hd (by rwa [hup])).leads

lemma Derives.again (level : Level) (h : Derives ws level.precedence t) {n : Nat}
    (hd : ws.length < n) (hs : Stops level.precedence.rank rest) :
    Gives (parseAt n level) ws rest (·.Alike t) := by
  cases n with
  | zero => simp at hd
  | succ n =>
    rw [parseAt_succ]
    exact h.gives n rest (Nat.lt_succ_iff.mp hd) hs

lemma Derives.nested (h : Derives ws .sequence t) {n : Nat} (hd : ws.length < n) (hs : Stops 0 rest) :
    Gives (parseAt n .sequence) ws rest (·.Alike t) :=
  h.again .sequence hd hs

lemma Derives.parens (h : Derives ws p t) :
    Derives (.mark .openParen :: (ws ++ [.mark .closeParen])) .atom t := by
  refine .of_gives ⟨_, _, .atom, rfl, rfl, le_rfl⟩ (Printer.linked_of_ne (by simp) _) rfl ?_
  intro depth rest hd _
  simp only [List.length_cons, List.length_append, List.length_nil] at hd
  have hinner : Derives ws .sequence t := h.weaken (Nat.zero_le _)
  exact gives_parenthesised (hinner.nested (by omega) (stops_of_none rfl _ _))

end

end DiceLang.Parser

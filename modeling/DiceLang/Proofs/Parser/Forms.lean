import DiceLang.Proofs.Parser.Atoms
import DiceLang.Proofs.Expr.WellFormed

/-! Reading operators with their operands. -/

namespace DiceLang.Parser

open Printer (leftLevel rightLevel operandLevel openingWords binaryWords led_opening led_binary
  linked_of_ne linked_binary)

variable {rest ws vs : List Lexeme} {t u : Expr}

lemma derives_sign {op : UnaryOp} {m : Mark} (hm : openingWords op = [.mark m])
    (hs : signOp? (.mark m) = some op) (hp : op.precedence = .sign) (h : Derives ws .best t)
    (loc : Location) : Derives (.mark m :: ws) .sign (.unary loc op t) := by
  have hled := led_opening op ws
  rw [hm, hp] at hled
  refine .of_gives hled (linked_of_ne (by simp) _) rfl fun depth rest hd hs' => ?_
  simp only [List.length_cons] at hd
  refine comes_here fun start => comes_peek ?_
  rw [List.cons_append, List.headD_cons, hs]
  exact comes_advance ((h.gives depth rest (by omega) (hs'.mono (by decide))).last fun e ha =>
    comes_locationFrom fun loc => comes_end (ha.unary _ _ _))

lemma derives_not (h : Derives ws .not t) (loc : Location) :
    Derives (.keyword .not :: ws) .not (.unary loc .not t) := by
  refine .of_gives (led_opening .not ws) (linked_of_ne (by simp) _) rfl fun depth rest hd hs => ?_
  simp only [List.length_cons] at hd
  exact comes_here fun start => comes_accept ((h.again .negation (n := depth) hd hs).last fun e ha =>
    comes_locationFrom fun loc => comes_end (ha.unary _ _ _))

lemma selector?_word (s : Selector) : selector? (.keyword s.word) = some s := by cases s <;> rfl

lemma derives_best {s : Selector} (h : Derives ws .draw t) (loc : Location) :
    Derives (.keyword s.word :: .keyword .of :: ws) .best (.unary loc (.best s) t) := by
  refine .of_gives (led_opening (.best s) ws) (linked_of_ne (by simp) _) rfl fun depth rest hd hs => ?_
  simp only [List.length_cons] at hd
  refine comes_here fun start => comes_peek ?_
  rw [List.cons_append, List.headD_cons, selector?_word]
  exact comes_advance <| comes_accept <| (h.gives depth rest (by omega) (hs.mono (by decide))).last
    fun e ha => comes_locationFrom fun loc => comes_end (ha.unary _ _ _)

lemma derives_draw (h : Derives ws .dice t) (loc : Location) :
    Derives (.keyword .draw :: .keyword .from :: ws) .draw (.unary loc .draw t) := by
  refine .of_gives (led_opening .draw ws) (linked_of_ne (by simp) _) rfl fun depth rest hd hs => ?_
  simp only [List.length_cons] at hd
  exact comes_here fun start => comes_accept <| comes_accept <|
    (h.gives depth rest (by omega) (hs.mono (by decide))).last fun e ha =>
      comes_locationFrom fun loc => comes_end (ha.unary _ _ _)

lemma derives_die (h : Derives ws .unary t) (loc : Location) :
    Derives (.keyword .d :: ws) .dice (.unary loc .die t) := by
  refine .of_gives (led_opening .die ws) (linked_of_ne (by simp) _) rfl fun depth rest hd hs => ?_
  simp only [List.length_cons] at hd
  have hfirst : Gives (firstDie (parseAt depth)) (.keyword .d :: ws) rest
      (·.Alike (.unary loc .die t)) :=
    comes_here fun start => comes_accept <| (h.gives depth rest (by omega) (hs.mono (by decide))).last
      fun e ha => comes_locationFrom fun loc => comes_end (ha.unary _ _ _)
  exact hfirst.last fun e he => comes_remaining fun bound =>
    gives_chainFrom _ (covers_dice.links (by simp) (by simp)) hs bound he

lemma derives_conversion {op : UnaryOp} {k : Keyword} (hw : openingWords op = [.keyword k])
    (hp : op.precedence = .unary) (hk : unaryOp? (.keyword k) = some op) (h : Derives ws .unary t)
    (loc : Location) : Derives (.keyword k :: ws) .unary (.unary loc op t) := by
  have hled := led_opening op ws
  rw [hw, hp] at hled
  refine .of_gives hled (linked_of_ne (by simp) _) rfl fun depth rest hd hs => ?_
  simp only [List.length_cons] at hd
  refine comes_here fun start => comes_peek ?_
  rw [List.cons_append, List.headD_cons, hk]
  exact comes_advance ((h.again .unary (n := depth) hd hs).last fun e ha =>
    comes_locationFrom fun loc => comes_end (ha.unary _ _ _))

lemma derives_unary {op : UnaryOp} (hop : op.isWritten = true) (h : Derives ws (operandLevel op) t)
    (loc : Location) : Derives (openingWords op ++ ws) op.precedence (.unary loc op t) := by
  cases op with
  | plus => exact derives_sign (m := .plus) rfl rfl rfl h loc
  | minus => exact derives_sign (m := .minus) rfl rfl rfl h loc
  | not => exact derives_not h loc
  | best s => exact derives_best h loc
  | draw => exact derives_draw h loc
  | die => exact derives_die h loc
  | count => exact derives_conversion (k := .count) rfl rfl rfl h loc
  | convert k =>
    refine derives_conversion (k := k.word) rfl rfl ?_ h loc
    cases k with
    | undefined | function => simp [UnaryOp.isWritten] at hop
    | _ => rfl
  | reorder r =>
    refine derives_conversion (k := r.word) rfl rfl ?_ h loc
    cases r <;> rfl

lemma derives_chained {op : BinaryOp} {p : Precedence} {op? : Lexeme → Option BinaryOp}
    (hp : op.precedence = p) (hs : isSpine p = true) (hl : leftLevel op = p)
    (hw : binaryWords op ws vs = ws ++ op.joint :: vs) (hj : op.joint.link? = some p)
    (hmore : ∀ again, restAt again p = chainFrom op? (parserAt again p.up))
    (hop : op? op.joint = some op) (hleft : Derives ws p t) (hright : Derives vs p.up u)
    (loc : Location) : Derives (ws ++ op.joint :: vs) p (.binary loc op t u) := by
  have hled := led_binary op (hl ▸ hleft.led) vs
  have hlinked := linked_binary op (hl ▸ hleft.linked) hleft.led.ne_nil vs
  rw [hw, hp] at hled hlinked
  refine .of_leads hled hlinked hs ?_
  intro depth rest hd hst
  have hatom : p ≠ .atom := by
    rintro rfl
    simp [isSpine] at hs
  simp only [List.length_append, List.length_cons] at hd
  have hlead := hleft.leads hs depth (op.joint :: (vs ++ rest)) (by omega)
    (stops_of_link hj (Nat.lt_succ_self _) _)
  have hgive := hright.gives depth rest (by omega) (by rwa [Precedence.rank_up hatom])
  rw [hmore] at hlead ⊢
  exact hlead.chain hop hgive loc

lemma derives_ungrouped {op : BinaryOp} {p : Precedence} {op? : Lexeme → Option BinaryOp}
    (hp : op.precedence = p) (hs : isSpine p = false) (hatom : p ≠ .atom) (hl : leftLevel op = p.up)
    (hw : binaryWords op ws vs = ws ++ op.joint :: vs) (hj : op.joint.link? = some p)
    (hlevel : ∀ again, parserAt again p = single op? (parserAt again p.up))
    (hop : op? op.joint = some op) (hleft : Derives ws p.up t) (hright : Derives vs p.up u)
    (loc : Location) : Derives (ws ++ op.joint :: vs) p (.binary loc op t u) := by
  have hled := led_binary op (hl ▸ hleft.led) vs
  have hlinked := linked_binary op (hl ▸ hleft.linked) hleft.led.ne_nil vs
  rw [hw, hp] at hled hlinked
  refine .of_gives hled hlinked hs fun depth rest hd hst => ?_
  have hup := Precedence.rank_up hatom
  simp only [List.length_append, List.length_cons] at hd
  rw [hlevel]
  refine Gives.bind (hleft.gives depth (op.joint :: (vs ++ rest)) (by omega)
    (stops_of_link hj (by omega) _)) fun l hl => comes_peek ?_
  rw [List.cons_append, List.headD_cons, hop]
  exact comes_advance ((hright.gives depth rest (by omega) (hst.mono (by omega))).last fun r hr =>
    comes_end (hl.binary hr _ _ _))

lemma derives_bestOf {s : Selector} (hl : Derives ws .or t) (hr : Derives vs .draw u)
    (loc : Location) :
    Derives (.keyword s.word :: (ws ++ .keyword .of :: vs)) .best (.binary loc (.bestOf s) t u) := by
  refine .of_gives (led_binary (.bestOf s) hl.led vs) (linked_of_ne (by simp) _) rfl
    fun depth rest hd hs => ?_
  simp only [List.length_append, List.length_cons] at hd
  refine comes_here fun start => comes_peek ?_
  rw [List.cons_append, List.headD_cons, selector?_word]
  refine comes_advance <| comes_refuse (led_ne (hl.led.append _) (by rintro p ⟨⟩) rest) ?_
  refine (hl.again .disjunction (n := depth) (by omega) (stops_of_none rfl _ _)).bind fun l hl => ?_
  exact comes_expect fun _ => (hr.gives depth rest (by omega) (hs.mono (by decide))).last fun r hr =>
    comes_locationFrom fun loc => comes_end (hl.binary hr _ _ _)

lemma derives_drawMany (hl : Derives ws .dice t) (hr : Derives vs .dice u) (loc : Location) :
    Derives (.keyword .draw :: (ws ++ .keyword .from :: vs)) .draw (.binary loc .drawMany t u) := by
  refine .of_gives (led_binary .drawMany hl.led vs) (linked_of_ne (by simp) _) rfl
    fun depth rest hd hs => ?_
  simp only [List.length_append, List.length_cons] at hd
  refine comes_here fun start => comes_accept <|
    comes_refuse (led_ne (hl.led.append _) (by rintro p ⟨⟩) rest) ?_
  refine Gives.bind (hl.gives depth _ (by omega) (stops_of_none rfl _ _)) fun l hl => ?_
  exact comes_expect fun _ => (hr.gives depth rest (by omega) (hs.mono (by decide))).last fun r hr =>
    comes_locationFrom fun loc => comes_end (hl.binary hr _ _ _)

lemma derives_dice (hl : Derives ws .unary t) (hr : Derives vs .unary u) (loc : Location) :
    Derives (ws ++ .keyword .d :: vs) .dice (.binary loc .dice t u) := by
  refine .of_gives (led_binary .dice hl.led vs)
    (linked_binary .dice hl.linked hl.led.ne_nil vs) rfl ?_
  intro depth rest hd hs
  simp only [List.length_append, List.length_cons] at hd
  have hfirst := gives_firstDie (hl.gives depth (BinaryOp.dice.joint :: (vs ++ rest)) (by omega)
    (stops_of_link (p := .dice) rfl (by decide) _)) hl.led
  have hlead : Leads (dice (parseAt depth)) (chainFrom diceOp? (unary (parseAt depth))) _ _ _ :=
    hfirst.leads
  have hchain := hlead.chain rfl (hr.gives depth rest (by omega) (hs.mono (by decide))) loc
  exact hchain.gives fun bound e he =>
    gives_chainFrom _ (covers_dice.links (by simp) (by simp)) hs bound he

lemma endsSequence_lead {l : Lexeme} {p : Precedence} (h : l.lead? = some p) :
    endsSequence l = false := by
  cases l with
  | mark m =>
    cases m with
    | separator | closeParen | closeBracket | closeBrace | comma => cases h
    | _ => rfl
  | eof => cases h
  | _ => rfl

lemma derives_sequence (hl : Derives ws .sequence t) (hr : Derives vs .output u) (loc : Location) :
    Derives (ws ++ .mark .semicolon :: vs) .sequence (.binary loc .sequence t u) := by
  refine .of_leads (led_binary .sequence hl.led vs)
    (linked_binary .sequence hl.linked hl.led.ne_nil vs) rfl ?_
  intro depth rest hd hs
  simp only [List.length_append, List.length_cons] at hd
  have hlead := hl.leads rfl depth (.mark .semicolon :: (vs ++ rest)) (by omega)
    (stops_of_link (p := .sequence) rfl (by decide) _)
  refine Leads.step hlead (by simp) fun t bound l hl => comes_accept (comes_peek ?_)
  obtain ⟨p, hp, _⟩ := led_head hr.led rest
  rw [endsSequence_lead hp, if_neg (by simp)]
  exact (hr.gives depth rest (by omega) hs).last fun r hr => comes_end (hl.binary hr _ _ _)

lemma derives_binary {op : BinaryOp} (hop : op ≠ .subscript) (hl : Derives ws (leftLevel op) t)
    (hr : Derives vs (rightLevel op) u) (loc : Location) :
    Derives (binaryWords op ws vs) op.precedence (.binary loc op t u) := by
  cases op with
  | arithmetic op =>
    cases op with
    | add | sub =>
      exact derives_chained (p := .plus) rfl rfl rfl rfl rfl (fun _ => rfl) rfl hl hr loc
    | mul | div | mod =>
      exact derives_chained (p := .mult) rfl rfl rfl rfl rfl (fun _ => rfl) rfl hl hr loc
  | compare op =>
    cases op <;> exact derives_ungrouped (p := .comparison) rfl rfl (by simp) rfl rfl rfl
      (fun _ => rfl) rfl hl hr loc
  | same | notSame =>
    exact derives_ungrouped (p := .comparison) rfl rfl (by simp) rfl rfl rfl (fun _ => rfl) rfl hl hr
      loc
  | and => exact derives_chained (p := .and) rfl rfl rfl rfl rfl (fun _ => rfl) rfl hl hr loc
  | or => exact derives_chained (p := .or) rfl rfl rfl rfl rfl (fun _ => rfl) rfl hl hr loc
  | append =>
    exact derives_ungrouped (p := .append) rfl rfl (by simp) rfl rfl rfl (fun _ => rfl) rfl hl hr loc
  | indexOf =>
    exact derives_ungrouped (p := .indexOf) rfl rfl (by simp) rfl rfl rfl (fun _ => rfl) rfl hl hr loc
  | range =>
    exact derives_ungrouped (p := .range) rfl rfl (by simp) rfl rfl rfl (fun _ => rfl) rfl hl hr loc
  | assign =>
    exact derives_ungrouped (p := .assign) rfl rfl (by simp) rfl rfl rfl (fun _ => rfl) rfl hl hr loc
  | bestOf s => exact derives_bestOf hl hr loc
  | drawMany => exact derives_drawMany hl hr loc
  | dice => exact derives_dice hl hr loc
  | subscript => exact absurd rfl hop
  | sequence => exact derives_sequence hl hr loc

end DiceLang.Parser

import DiceLang.Proofs.Label.Fill
import DiceLang.Proofs.Parser.Statements

/-! The words of a label are read to the filled tree, if every negative number stands where a sign may
stand. -/

namespace DiceLang.Parser

open Printer (labelWords labelWordsAt labelWordsAt_of_le labelWordsAt_up labelWordsAt_assign clauseWords
  constantWords optionalWords writtenDefault)
open DiceLang.Expr (Within Sits shown sits sits_of_le sits_of_spots)

variable {look : Lookup}

def Reread (look : Lookup) (e : Expr) : Prop :=
  Derives (labelWords look e) (e.fill look).precedence (e.shown look)

lemma Reread.at {e : Expr} (h : Reread look e) {level : Precedence} (hs : Sits look level e) :
    Derives (labelWordsAt look level e) level (e.shown look) := by
  by_cases hl : e.precedence.rank < level.rank
  · rw [labelWordsAt, Printer.enclosed_of_lt hl]
    exact h.parens.weaken (by cases level <;> decide)
  · have hle := Nat.not_lt.mp hl
    rw [labelWordsAt_of_le look level hle]
    exact h.weaken (hs hle)

lemma Reread.weakly {e : Expr} (h : Reread look e) (level : Precedence)
    (hl : level.rank ≤ Precedence.sign.rank) :
    Derives (labelWordsAt look level e) level (e.shown look) :=
  h.at (sits_of_le hl)

lemma Reread.whole {e : Expr} (h : Reread look e) :
    Derives (labelWords look e) .sequence (e.shown look) :=
  h.weaken (Nat.zero_le _)

lemma derives_constant (loc : Location) (v : Scalar) :
    Derives (constantWords v) (Expr.constant loc v).precedence (Expr.constant loc v) := by
  cases v with
  | number n =>
    by_cases hn : n < 0
    · rw [constantWords, Expr.constant, Expr.writeSign, if_pos hn, if_pos hn]
      have hscalar : Derives [.number (-n)] .best (.scalar loc (.number (-n))) :=
        (derives_scalar loc (.number (-n))).weaken (by decide)
      exact derives_sign (m := .minus) rfl rfl rfl hscalar loc
    · rw [constantWords, Expr.constant, Expr.writeSign, if_neg hn, if_neg hn, Expr.precedence, if_neg hn]
      exact derives_scalar loc (.number n)
  | undefined => exact derives_scalar loc .undefined
  | string s => exact derives_scalar loc (.string s)
  | boolean b => exact derives_scalar loc (.boolean b)

lemma reread_constant (loc : Location) (v : Scalar) :
    (Expr.constant loc v).reread = Expr.constant loc v := by
  cases v with
  | number n => by_cases hn : n < 0 <;> simp [Expr.constant, Expr.writeSign, hn]
  | _ => rfl

lemma reread_var (loc : Location) (name : String) : Reread look (.var loc name) := by
  rw [Reread, shown, Expr.fill_var, Expr.kept_var, Expr.fillNode, labelWords]
  cases look name with
  | none => exact derives_var loc name
  | some v =>
    dsimp only
    rw [reread_constant]
    exact derives_constant loc v

lemma exists_not_name {e : Expr} (h : ∀ loc x, e = .var loc x → look x ≠ none) :
    ∃ l ∈ labelWords look e, ∀ x, l ≠ .name x := by
  have hscalar (v : Scalar) : ∃ l ∈ Printer.scalarWords v, ∀ x, l ≠ .name x := by
    rcases v with _ | s | b | n
    · exact ⟨_, List.mem_singleton_self _, by simp⟩
    · exact ⟨_, List.mem_singleton_self _, by simp⟩
    · cases b <;> exact ⟨_, List.mem_singleton_self _, by simp⟩
    · exact ⟨_, List.mem_singleton_self _, by simp⟩
  cases e with
  | scalar loc v => exact hscalar v
  | interpolation loc fs => exact ⟨_, List.mem_singleton_self _, by simp⟩
  | list loc items => exact ⟨.mark .openBracket, by simp [labelWords], by simp⟩
  | map loc entries => exact ⟨.mark .openBrace, by simp [labelWords], by simp⟩
  | lambda loc params body => exact ⟨.keyword .fun, by simp [labelWords], by simp⟩
  | unary loc op operand =>
    cases op <;> exact ⟨_, by rw [labelWords]; exact List.mem_cons_self, by simp⟩
  | binary loc op left right =>
    by_cases hop : op = .subscript
    · subst hop
      cases hn : Printer.entryName? right with
      | none => exact ⟨.mark .openBracket, by simp [labelWords, hn, Printer.operatorWords,
          Printer.binaryWords, BinaryOp.joint], by simp⟩
      | some name => exact ⟨.mark .dot, by simp [labelWords, hn, Printer.operatorWords], by simp⟩
    · refine ⟨op.joint, ?_, by cases op <;> simp [BinaryOp.joint]⟩
      rw [Printer.labelWords_binary look left right hop]
      cases op <;> simp [Printer.binaryWords]
  | forEach loc index item out container condition =>
    exact ⟨.keyword .for, by simp [labelWords], by simp⟩
  | repeating loc form body condition limit =>
    cases form <;> exact ⟨.keyword .repeat, by simp [labelWords, Printer.repeatWords], by simp⟩
  | conditional loc condition whenTrue whenFalse =>
    exact ⟨.keyword .if, by simp [labelWords], by simp⟩
  | call loc callee positional named => exact ⟨.mark .openParen, by simp [labelWords], by simp⟩
  | scopeVariables loc which => exact ⟨_, List.mem_singleton_self _, by simp⟩
  | output loc mode expression type name =>
    exact ⟨.keyword mode.word, by rw [labelWords]; exact List.mem_cons_self, by simp⟩
  | importing loc space address => exact ⟨.keyword .import, by simp [labelWords], by simp⟩
  | var loc x =>
    obtain ⟨v, hv⟩ := Option.ne_none_iff_exists'.mp (h loc x rfl)
    rw [labelWords, hv]
    cases v with
    | number n =>
      by_cases hn : n < 0
      · exact ⟨.mark .minus, by simp [constantWords, hn], by simp⟩
      · exact ⟨.number n, by simp [constantWords, hn], by simp⟩
    | undefined => exact hscalar .undefined
    | string s => exact hscalar (.string s)
    | boolean b => exact hscalar (.boolean b)

lemma labelWordsAt_ne_name {e : Expr} (h : ∀ loc x, e = .var loc x → look x ≠ none)
    (level : Precedence) (x : String) : labelWordsAt look level e ≠ [.name x] := by
  intro hw
  obtain ⟨l, hl, hne⟩ := exists_not_name h
  have hl' : l ∈ labelWordsAt look level e := by
    unfold labelWordsAt Printer.enclosed
    split <;> simp [hl]
  rw [hw, List.mem_singleton] at hl'
  exact hne x hl'

lemma reread_scalar {loc : Location} {v : Scalar} (h : (Expr.scalar loc v).Regular) :
    Reread look (.scalar loc v) := by
  have hp : (Expr.scalar loc v).precedence = .atom := by
    cases v with
    | number n => exact if_neg (Int64.not_lt.mpr h)
    | _ => rfl
  rw [Reread, Expr.precedence_fill rfl, hp]
  exact derives_scalar loc v

lemma reread_lambda {loc : Location} {params : List (String × Option Expr)} {body : Expr}
    (hp : ∀ x ∈ params, ∀ d ∈ x.2, Reread look d) (hb : Reread look body) :
    Reread look (.lambda loc params body) := by
  rw [Reread, Expr.shown_of_ne look (by simp) (by simp), Printer.labelWords_lambda,
    Expr.precedence_fill rfl]
  have hparams : ∀ x ∈ params.map fun x => (x.1, writtenDefault x.2), ∀ d ∈ x.2,
      Derives (labelWords look d) .sequence (d.shown look) := by
    intro x hx d hd
    obtain ⟨x, hm, rfl⟩ := List.mem_map.mp hx
    refine (hp x hm d ?_).whole
    rw [writtenDefault] at hd
    split at hd
    · simp at hd
    · exact hd
  have h := derives_lambda hparams hb.whole loc
  rw [List.map_map, List.map_map] at h
  refine h.congr ?_
  -- a default `undef` is left out
  simp only [Expr.nameImport, Expr.mapChildren, Expr.Alike, Expr.bare_lambda, List.map_map]
  refine congrArg (fun ps => Expr.lambda _ ps _) (List.map_congr_left fun x _ => ?_)
  simp only [Function.comp_apply, Expr.bareDefault_written]

lemma reread_unary {loc : Location} {op : UnaryOp} {operand : Expr} (hop : op.isWritten = true)
    (hm : (Expr.unary loc op operand).isMisplaced look = false) (h : Reread look operand) :
    Reread look (.unary loc op operand) := by
  have hsits : Sits look (Printer.operandLevel op) operand :=
    sits_of_spots hm (by simp [Expr.spots])
  rw [Reread, labelWords, Expr.precedence_fill rfl, Expr.shown_of_ne look (by simp) (by simp)]
  exact derives_unary hop (h.at hsits) loc

lemma reread_binary {loc : Location} {op : BinaryOp} {left right : Expr}
    (hm : (Expr.binary loc op left right).isMisplaced look = false) (hl : Reread look left)
    (hr : Reread look right) : Reread look (.binary loc op left right) := by
  have hleft : Sits look (Printer.leftLevel op) left := sits_of_spots hm (by simp [Expr.spots])
  have hright : Sits look (Printer.rightLevel op) right := sits_of_spots hm (by simp [Expr.spots])
  have hp : ((Expr.binary loc op left right).fill look).precedence = op.precedence :=
    Expr.precedence_fill rfl
  have ht : (Expr.binary loc op left right).shown look =
      .binary loc op (left.shown look) (right.shown look) := Expr.shown_of_ne look (by simp) (by simp)
  rw [Reread, hp, ht]
  by_cases hop : op = .subscript
  · subst hop
    cases hn : Printer.entryName? right with
    | none =>
      rw [labelWords, hn]
      exact derives_subscript (hl.at hleft) (hr.at hright) loc
    | some name =>
      obtain ⟨loc', rfl⟩ := Printer.eq_string_of_entryName hn
      rw [labelWords, hn]
      exact derives_entry (hl.at hleft) name loc loc'
  · rw [Printer.labelWords_binary look left right hop]
    exact derives_binary hop (hl.at hleft) (hr.at hright) loc

lemma reread_forEach {loc : Location} {index : Option String} {item : String} {out container : Expr}
    {condition : Option Expr}
    (ho : Reread look out) (hc : Reread look container) (ht : ∀ d ∈ condition, Reread look d) :
    Reread look (.forEach loc index item out container condition) := by
  have hwritten : ∀ d ∈ Printer.writtenCondition condition,
      Derives (labelWordsAt look .or d) .or (d.shown look) := by
    intro d hd
    refine (ht d ?_).weakly _ (by decide)
    rw [Printer.writtenCondition] at hd
    split at hd
    · simp at hd
    · exact hd
  have hcontainer := hc.weakly .or (by decide)
  rw [Reread, Expr.precedence_fill rfl, Expr.shown_forEach, Printer.labelWords_forEach]
  have halike (o : Expr) : (Expr.forEach loc index item o (container.shown look)
      ((Printer.writtenCondition condition).map (shown look))).Alike
      (.forEach loc index item o (container.shown look) (condition.map (shown look))) := by
    simp only [Expr.Alike, Expr.bare_forEach, Expr.bareCondition_written]
  by_cases hv : Printer.isVar item out = true
  · obtain ⟨loc', rfl⟩ := Printer.eq_var_of_isVar hv
    rw [if_pos hv, if_pos hv, List.nil_append]
    exact (derives_collect hcontainer hwritten loc loc' index item).congr (halike _)
  · rw [if_neg hv, if_neg hv]
    have h := derives_forEach (ho.weakly _ (by decide)) hcontainer hwritten loc index item
    exact h.congr (halike _)

lemma reread_repeating {loc : Location} {form : RepeatForm} {body condition : Expr}
    {limit : Option Expr} (hone : form = .once → ∃ loc, limit = some (.scalar loc (.number 1)))
    (hb : Reread look body) (hc : Reread look condition) (hl : ∀ d ∈ limit, Reread look d) :
    Reread look (.repeating loc form body condition limit) := by
  have hbody := hb.weakly .or (by decide)
  have hcondition := hc.weakly .or (by decide)
  have hlimit : ∀ d ∈ limit, Derives (labelWordsAt look .or d) .or (d.shown look) :=
    fun d hd => (hl d hd).weakly _ (by decide)
  rw [Reread, Expr.precedence_fill rfl, Expr.shown_of_ne look (by simp) (by simp), labelWords,
    Printer.clauseWords_eq]
  cases form with
  | before => exact derives_before hbody hcondition hlimit loc
  | after => exact derives_after hbody hcondition hlimit loc
  | once =>
    obtain ⟨loc', rfl⟩ := hone rfl
    exact derives_once hbody hcondition loc loc'

lemma reread_output {loc : Location} {mode : OutputMode} {expression : Expr}
    {type : Option OutputType} {name : Option Expr} (hlit : ∀ e ∈ name, e.isLiteral = true)
    (he : Reread look expression) (hn : ∀ e ∈ name, Reread look e) :
    Reread look (.output loc mode expression type name) := by
  have hword : ∀ e ∈ name, Literal (labelWordsAt look .atom e) := by
    intro e hm
    have hl := hlit e hm
    cases e with
    | scalar loc v =>
      cases v with
      | string s => exact ⟨_, labelWordsAt_of_le look .atom (Nat.le_refl 19)⟩
      | _ => simp [Expr.isLiteral] at hl
    | interpolation loc fs => exact ⟨fs, labelWordsAt_of_le look .atom (Nat.le_refl 19)⟩
    | _ => simp [Expr.isLiteral] at hl
  have hname : ∀ e ∈ name, Derives (labelWordsAt look .atom e) .atom (e.shown look) := by
    intro e hm
    refine (hn e hm).at (sits fun _ => ?_)
    have hl := hlit e hm
    cases e with
    | var => simp [Expr.isLiteral] at hl
    | _ => rfl
  rw [Reread, Expr.precedence_fill rfl, Expr.shown_of_ne look (by simp) (by simp), labelWords,
    Printer.clauseWords_eq]
  exact derives_output hword (he.weakly _ (by decide)) hname loc mode type

lemma address_ne_name {address : Expr}
    (h : ∀ loc loc' x right, address = .binary loc .assign (.var loc' x) right → look x ≠ none)
    (ha : Reread look address) (hc : ∀ c ∈ address.children, Reread look c) (x : String)
    (vs : List Lexeme) : labelWordsAt look .assign address ≠ .name x :: .mark .assign :: vs := by
  -- behind a name that begins a form of the level of control stands no `=`
  have hlinked {e : Expr} (he : Reread look e) {us : List Lexeme} :
      labelWordsAt look .control e ≠ .name x :: .mark .assign :: us := by
    intro hw
    obtain ⟨p, hp, hle⟩ := (he.weakly .control (by decide)).linked _ _ _ hw
    obtain rfl : Precedence.assign = p := Option.some.inj hp
    exact absurd hle (by decide)
  intro hw
  by_cases hp : address.precedence = .assign
  · obtain ⟨loc, left, right, rfl⟩ := Expr.eq_assign_of_precedence hp
    have hleft := hc left (by simp [Expr.children])
    rw [labelWordsAt_assign] at hw
    obtain ⟨l, us, _, hl, _⟩ := (hleft.weakly .control (by decide)).led
    rw [hl] at hw
    obtain ⟨rfl, htail⟩ := List.cons.inj hw
    cases us with
    | nil =>
      refine labelWordsAt_ne_name ?_ _ _ hl
      rintro loc' y rfl
      exact h loc loc' y right rfl
    | cons l us =>
      obtain ⟨rfl, _⟩ := List.cons.inj htail
      exact hlinked hleft hl
  · rw [labelWordsAt_up look (by simp) hp] at hw
    exact hlinked ha hw

lemma reread_importing {loc : Location} {space : Option String} {address : Expr}
    (ha : Reread look address) (hc : ∀ c ∈ address.children, Reread look c) :
    Reread look (.importing loc space address) := by
  have haddress := ha.weakly .assign (by decide)
  rw [Reread, Expr.precedence_fill rfl, Expr.shown_of_ne look (by simp) (by simp), labelWords]
  cases space with
  | some name => exact derives_importing_named haddress loc name
  | none =>
    by_cases hmis : (Expr.importing loc none (address.kept look)).isMisread = true
    · -- the name before `=` is taken for the name of the import
      obtain ⟨loc₁, loc₂, name, right, heq⟩ := Expr.isMisread_iff.mp hmis
      obtain ⟨l, r, rfl, hl, rfl⟩ := Expr.kept_eq_assign heq
      obtain ⟨rfl, hnone⟩ := Expr.kept_eq_var hl
      have hname : labelWords look (.var loc₂ name) = [.name name] := by rw [labelWords, hnone]
      have hvar : (Expr.var loc₂ name).shown look = .var loc₂ name := by
        rw [shown, hl]
        rfl
      have hr : Derives (labelWordsAt look .control r) .assign (r.shown look) :=
        ((hc r (by simp [Expr.children])).weakly _ (by decide)).weaken (by decide)
      have hw : labelWordsAt look .assign (.binary loc₁ .assign (.var loc₂ name) r) =
          .name name :: .mark .assign :: labelWordsAt look .control r := by
        rw [labelWordsAt_assign, labelWordsAt_of_le look .control (e := .var loc₂ name)
          (Nat.le_add_right 3 16), hname]
        rfl
      have ht : Expr.nameImport ((Expr.importing loc none
          (.binary loc₁ .assign (.var loc₂ name) r)).mapChildren (shown look)) =
          .importing loc (some name) (r.shown look) := by
        rw [Expr.mapChildren, Expr.shown_of_ne look (by simp) (by simp), Expr.mapChildren, hvar]
        rfl
      rw [ht, Printer.spaceWords, List.nil_append, ← labelWordsAt, hw]
      exact derives_importing_named hr loc name
    · have hmis' : (Expr.importing loc none (address.shown look)).isMisread = false := by
        rw [shown, Expr.isMisread_reread]
        simpa using hmis
      have h := derives_importing haddress (address_ne_name ?_ ha hc) loc
      · rw [Expr.mapChildren, Expr.nameImport_of_not_isMisread hmis']
        exact h
      · rintro loc₁ loc₂ x right rfl hnone
        refine hmis ?_
        rw [Expr.kept_of_ne look (by simp) (by simp), Expr.mapChildren, Expr.kept_var, Expr.fillNode,
          hnone]
        rfl

def Legible (look : Lookup) (e : Expr) : Prop :=
  ∀ n, Within n e → n.isMisplaced look = false

lemma legible_none (e : Expr) : Legible (fun _ => none) e :=
  fun n _ => n.isMisplaced_none

lemma reread_with_children (e : Expr) (h : e.WellFormed) (hl : Legible look e) :
    Reread look e ∧ ∀ c ∈ e.children, Reread look c := by
  induction e using Expr.children_induction with
  | step e ih =>
    have hr : e.Regular := h.regular
    obtain ⟨hm, hlc⟩ := Expr.forall_within.mp hl
    have ih : ∀ c ∈ e.children, Reread look c ∧ ∀ d ∈ c.children, Reread look d :=
      fun c hc => ih c hc (h.child hc) (hlc c hc)
    have hch : ∀ c ∈ e.children, Reread look c := fun c hc => (ih c hc).1
    refine ⟨?_, hch⟩
    cases e with
    | scalar loc v => exact reread_scalar hr
    | interpolation loc fs => exact derives_interpolation loc hr.2
    | list loc items =>
      rw [Reread, labelWords, Printer.wordsAll_eq, Expr.shown_of_ne look (by simp) (by simp)]
      exact derives_list (fun e he => (hch e he).whole) loc
    | map loc entries =>
      rw [Reread, labelWords, Printer.entryWords_eq, Expr.shown_of_ne look (by simp) (by simp)]
      exact derives_map (fun x hx => (hch x.2 (List.mem_map_of_mem hx)).whole) loc
    | lambda loc params body =>
      simp only [Expr.children, List.mem_cons, forall_eq_or_imp] at hch
      exact reread_lambda (fun x hx e he => hch.2 e (List.mem_filterMap.mpr ⟨x, hx, he⟩)) hch.1
    | unary loc op operand => exact reread_unary hr.1 hm (hch operand (by simp [Expr.children]))
    | binary loc op left right =>
      exact reread_binary hm (hch left (by simp [Expr.children])) (hch right (by simp [Expr.children]))
    | forEach loc index item out container condition =>
      simp only [Expr.children, List.mem_cons, forall_eq_or_imp] at hch
      exact reread_forEach hch.1 hch.2.1 fun x hx => hch.2.2 x (Option.mem_toList.mpr hx)
    | repeating loc form body condition limit =>
      simp only [Expr.children, List.mem_cons, forall_eq_or_imp] at hch
      exact reread_repeating hr.2.2.2 hch.1 hch.2.1 fun x hx => hch.2.2 x (Option.mem_toList.mpr hx)
    | conditional loc condition whenTrue whenFalse =>
      simp only [Expr.children, List.mem_cons, List.not_mem_nil, or_false, forall_eq_or_imp,
        forall_eq] at hch
      rw [Reread, labelWords, Expr.shown_of_ne look (by simp) (by simp)]
      exact derives_conditional (hch.1.weakly _ (by decide))
        (hch.2.1.weakly _ (by decide)) (hch.2.2.weakly _ (by decide)) loc
    | call loc callee positional named =>
      simp only [Expr.children, List.mem_cons, List.mem_append, forall_eq_or_imp] at hch
      have hsits : Sits look .subscript callee := sits_of_spots hm List.mem_cons_self
      rw [Reread, Printer.labelWords_call, Expr.shown_of_ne look (by simp) (by simp)]
      exact derives_call (hch.1.at hsits) (fun e he => (hch.2 e (.inl he)).whole)
        (fun x hx => (hch.2 x.2 (.inr (List.mem_map_of_mem hx))).whole) loc
    | scopeVariables loc which => exact derives_scopeVariables loc which
    | output loc mode expression type name =>
      simp only [Expr.children, List.mem_cons, forall_eq_or_imp] at hch
      exact reread_output hr.2 hch.1 fun x hx => hch.2 x (Option.mem_toList.mpr hx)
    | importing loc space address =>
      have ha := ih address (by simp [Expr.children])
      exact reread_importing ha.1 ha.2
    | var loc name => exact reread_var loc name

end DiceLang.Parser

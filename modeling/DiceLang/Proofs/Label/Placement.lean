import DiceLang.Proofs.Label.Derivation
import DiceLang.Proofs.Parser.Signs

/-! The numbers among the words of a label. A negative number in place of a name has no parentheses of its
own, so it does not stand alone where the filled tree needs it to. -/

namespace DiceLang.Parser

open Printer (labelWords labelWordsAt commas optionalWords constantWords scalarWords paramWord
  argumentWord)
open DiceLang.Expr (Within isTight)

variable {look : Lookup} {xs ys : List (Bool × Expr)} {us ws : List Lexeme}

def partNeeds (look : Lookup) (xs : List (Bool × Expr)) : List Bool :=
  xs.flatMap fun x => (x.2.kept look).needsAt x.1

def Placed (look : Lookup) (x : Bool × Expr) : Prop :=
  Legible look x.2 ∧ (x.1 = true → x.2.isNegative look = false)

abbrev Anywhere : Preceding → List Lexeme → Prop := fun _ _ => True

def Apart (b : Preceding) (behind : List Lexeme) : Prop :=
  (b.step (.mark .minus)).isSigned = false ∨ behind.head?.any closes = false

/-- The words have the numbers of the parts. At such places they give the numbers the parentheses that
the filled parts need only if no name of a negative number needs them. -/
structure Shows (look : Lookup) (K : Preceding → List Lexeme → Prop) (xs : List (Bool × Expr))
    (ws : List Lexeme) : Prop where
  length : (partNeeds look xs).length = ws.countP isNumberWord
  placed : ∀ b behind, K b behind → Meets (partNeeds look xs) (given behind b ws) →
    ∀ x ∈ xs, Placed look x

lemma meets_split {xs ys : List Bool} {behind : List Lexeme} {b : Preceding}
    (hlen : xs.length = us.countP isNumberWord)
    (h : Meets (xs ++ ys) (given behind b (us ++ ws))) :
    Meets xs (given (ws ++ behind) b us) ∧ Meets ys (given behind (b.run us) ws) := by
  rw [given_append] at h
  have hg : (given (ws ++ behind) b us).length = xs.length := by rw [length_given, hlen]
  have htake := List.forall₂_take_append _ _ _ h
  have hdrop := List.forall₂_drop_append _ _ _ h
  rw [hg, List.take_left] at htake
  rw [hg, List.drop_left] at hdrop
  exact ⟨htake, hdrop⟩

lemma Shows.append {K K₁ K₂ : Preceding → List Lexeme → Prop} (hx : Shows look K₁ xs us)
    (hy : Shows look K₂ ys ws) (h₁ : ∀ b behind, K b behind → K₁ b (ws ++ behind))
    (h₂ : ∀ b behind, K b behind → K₂ (b.run us) behind) : Shows look K (xs ++ ys) (us ++ ws) where
  length := by
    rw [partNeeds, List.flatMap_append, List.length_append, List.countP_append]
    exact congrArg₂ (· + ·) hx.length hy.length
  placed b behind hk hm := by
    rw [partNeeds, List.flatMap_append] at hm
    obtain ⟨hl, hr⟩ := meets_split hx.length hm
    exact List.forall_mem_append.mpr ⟨hx.placed _ _ (h₁ _ _ hk) hl, hy.placed _ _ (h₂ _ _ hk) hr⟩

lemma Shows.and (hx : Shows look Anywhere xs us) (hy : Shows look Anywhere ys ws) :
    Shows look Anywhere (xs ++ ys) (us ++ ws) :=
  hx.append hy (fun _ _ _ => trivial) fun _ _ _ => trivial

lemma shows_silent (h : Silent ws) : Shows look Anywhere [] ws where
  length := by
    rw [eq_comm]
    exact List.countP_eq_zero.mpr fun w hw => by simp [h w hw]
  placed := by simp

lemma Shows.behind {w : Lexeme} (h : Shows look Anywhere xs ws) (hw : isNumberWord w = false) :
    Shows look Anywhere xs (w :: ws) :=
  (shows_silent (silent_singleton hw)).and h

lemma Shows.before {w : Lexeme} (h : Shows look Anywhere xs ws) (hw : isNumberWord w = false) :
    Shows look Anywhere xs (ws ++ [w]) := by
  have hs := h.and (shows_silent (silent_singleton hw))
  rwa [List.append_nil] at hs

lemma Shows.led {w : Lexeme} (h : Shows look Apart xs ws) (hw : isNumberWord w = false)
    (hp : w ≠ .mark .openParen) : Shows look Anywhere xs (w :: ws) := by
  refine (shows_silent (silent_singleton hw)).append h (fun _ _ _ => trivial) fun b _ _ => .inl ?_
  cases w with
  | mark m =>
    cases m with
    | openParen => exact absurd rfl hp
    | _ => cases b <;> rfl
  | _ => cases b <;> rfl

lemma Shows.followed {w : Lexeme} (hx : Shows look Apart xs us) (hw : closes w = false)
    (hy : Shows look Anywhere ys (w :: ws)) : Shows look Anywhere (xs ++ ys) (us ++ w :: ws) :=
  hx.append hy (fun _ _ _ => .inr hw) fun _ _ _ => trivial

lemma shows_commas {α : Type} {f : α → List Lexeme} {g : α → List (Bool × Expr)} {items : List α}
    (h : ∀ x ∈ items, Shows look Anywhere (g x) (f x)) :
    Shows look Anywhere (items.flatMap g) (commas (items.map f)) := by
  induction items with
  | nil => exact shows_silent (by simp [Silent, commas])
  | cons x items ih =>
    obtain ⟨hx, hitems⟩ := List.forall_mem_cons.mp h
    rw [List.flatMap_cons]
    cases items with
    | nil => simpa [commas] using hx
    | cons y items => exact hx.and ((ih hitems).behind rfl)

def Told (look : Lookup) (e : Expr) : Prop := Shows look Anywhere [(false, e)] (labelWords look e)

lemma partNeeds_singleton (t : Bool) (e : Expr) :
    partNeeds look [(t, e)] = (e.kept look).needsAt t := by
  rw [partNeeds, List.flatMap_singleton]

lemma told_of {e : Expr} (hlen : (e.kept look).needs.length = (labelWords look e).countP isNumberWord)
    (h : ∀ b behind, Meets (e.kept look).needs (given behind b (labelWords look e)) → Legible look e) :
    Told look e where
  length := by rwa [partNeeds_singleton, Expr.needsAt_false]
  placed b behind _ hm := by
    rw [partNeeds_singleton, Expr.needsAt_false] at hm
    simpa [Placed] using h b behind hm

lemma Told.at {e : Expr} (h : Told look e) (level : Precedence) :
    Shows look Anywhere [(false, e)] (labelWordsAt look level e) := by
  rw [labelWordsAt, Printer.enclosed]
  split
  · exact Shows.behind (Shows.before h rfl) rfl
  · exact h

lemma shows_optional {x : Option Expr} (h : ∀ e ∈ x, Told look e) {lead : List Lexeme}
    (hl : Silent lead) (level : Precedence) :
    Shows look Anywhere (x.toList.map (false, ·))
      (optionalWords lead (x.map (labelWordsAt look level))) := by
  cases x with
  | none => exact shows_silent (by simp [Silent, optionalWords])
  | some e => exact (shows_silent hl).and ((h e rfl).at level)

lemma legible_leaf {e : Expr} (hc : e.children = []) (hs : e.spots = []) : Legible look e :=
  Expr.forall_within_leaf hc (by simp [Expr.isMisplaced, hs])

lemma shows_unwritten {loc : Location} {v : Scalar} (h : (Expr.scalar loc v).isNumber = false) :
    Shows look Anywhere [(false, .scalar loc v)] [] where
  length := by
    have hneeds : ((Expr.scalar loc v).kept look).needs = [] := Expr.needs_leaf h rfl
    rw [partNeeds_singleton, Expr.needsAt_false, hneeds]
    rfl
  placed _ _ _ _ := by simpa [Placed] using legible_leaf rfl rfl

lemma exists_of_isNegative {e : Expr} (h : e.isNegative look = true) :
    ∃ loc name n, e = .var loc name ∧ look name = some (.number n) ∧ n < 0 := by
  cases e with
  | var loc name =>
    rw [Expr.isNegative] at h
    split at h
    · exact ⟨loc, name, _, rfl, ‹_›, of_decide_eq_true h⟩
    · cases h
  | _ => cases h

lemma isSigned_of_isNegative {e : Expr} (h : e.isNegative look = true) :
    (e.kept look).isSigned = true := by
  obtain ⟨loc, name, n, rfl, hl, hn⟩ := exists_of_isNegative h
  simp only [Expr.kept_var, Expr.fillNode, hl, Expr.constant, Expr.writeSign, if_pos hn]
  rfl

lemma given_of_isNegative {e : Expr} (h : e.isNegative look = true) (level : Precedence) {b : Preceding}
    {behind : List Lexeme} (hb : Apart b behind) :
    given behind b (labelWordsAt look level e) = [false] := by
  obtain ⟨loc, name, n, rfl, hl, hn⟩ := exists_of_isNegative h
  have hw : labelWordsAt look level (.var loc name) = [.mark .minus, .number (-n)] := by
    have hle : level.rank ≤ Precedence.atom.rank := by cases level <;> decide
    rw [Printer.labelWordsAt_of_le look level (e := .var loc name) hle, labelWords, hl]
    exact if_pos hn
  rw [hw, given_cons rfl, given, given, List.nil_append]
  rcases hb with hb | hb <;> simp [hb]

lemma Told.place {e : Expr} (h : Told look e) (level : Precedence) :
    Shows look Apart [(isTight level, e)] (labelWordsAt look level e) := by
  have hat := h.at level
  by_cases ht : (isTight level && (e.kept look).isSigned) = true
  · have hneeds : partNeeds look [(isTight level, e)] = [true] := by
      rw [partNeeds_singleton, Expr.needsAt, if_pos ht]
    have hfalse : partNeeds look [(false, e)] = [false] := by
      rw [Bool.and_eq_true] at ht
      rw [partNeeds_singleton, Expr.needsAt_false, Expr.needs_of_isSigned ht.2]
    have hone : 1 = (labelWordsAt look level e).countP isNumberWord := by
      rw [← hat.length, hfalse]
      rfl
    refine ⟨by rw [hneeds]; exact hone, fun b behind hb hm => ?_⟩
    obtain ⟨g, hg⟩ : ∃ g, given behind b (labelWordsAt look level e) = [g] :=
      List.length_eq_one_iff.mp (by rw [length_given, ← hone])
    have hplaced := hat.placed b behind trivial (by rw [hfalse, hg]; exact .cons (Bool.false_le g) .nil)
    refine List.forall_mem_singleton.mpr ⟨(hplaced _ (List.mem_singleton_self _)).1, fun _ => ?_⟩
    by_contra hneg
    rw [hneeds, given_of_isNegative (by simpa using hneg) level hb] at hm
    cases hm with
    | cons hle _ => exact absurd hle (by decide)
  · have hneeds : partNeeds look [(isTight level, e)] = partNeeds look [(false, e)] := by
      rw [partNeeds_singleton, partNeeds_singleton, Expr.needsAt, if_neg ht, Expr.needsAt_false]
    refine ⟨by rw [hneeds]; exact hat.length, fun b behind _ hm => ?_⟩
    have hplaced := hat.placed b behind trivial (hneeds ▸ hm)
    refine List.forall_mem_singleton.mpr ⟨(hplaced _ (List.mem_singleton_self _)).1,
      fun (htight : isTight level = true) => ?_⟩
    by_contra hneg
    exact ht (by rw [htight, isSigned_of_isNegative (by simpa using hneg)]; rfl)

lemma told_form {e : Expr} (hk : e.kept look = e.mapChildren (Expr.kept look)) (hn : e.isNumber = false)
    (hc : ∀ c ∈ e.children, c ∈ e.spots.map Prod.snd ∨ Legible look c)
    (h : Shows look Anywhere e.spots (labelWords look e)) : Told look e := by
  have hneeds : (e.kept look).needs = partNeeds look e.spots := by
    have hnumber : (e.mapChildren (Expr.kept look)).isNumber = false := by
      rw [← hn]
      cases e <;> rfl
    rw [hk, Expr.needs_of_spots hnumber, Expr.spots_mapChildren, List.flatMap_map]
    rfl
  refine told_of (hneeds ▸ h.length) fun b behind hm => ?_
  rw [hneeds] at hm
  have hplaced := h.placed b behind trivial hm
  refine Expr.forall_within.mpr ⟨?_, fun c hc' => ?_⟩
  · refine List.any_eq_false.mpr fun x hx => ?_
    simpa using (hplaced x hx).2
  · rcases hc c hc' with hs | hl
    · obtain ⟨x, hx, rfl⟩ := List.mem_map.mp hs
      exact (hplaced x hx).1
    · exact hl

lemma told_spots {e : Expr} (hv : ∀ loc name, e ≠ .var loc name)
    (hf : ∀ loc index item out container condition,
      e ≠ .forEach loc index item out container condition)
    (ho : ∀ loc body condition limit, e ≠ .repeating loc .once body condition limit)
    (hn : e.isNumber = false) (h : Shows look Anywhere e.spots (labelWords look e)) : Told look e :=
  told_form (Expr.kept_of_ne look hv hf) hn (fun _ hc => .inl (Expr.mem_spots_of_children hc ho)) h

lemma told_leaf {e : Expr} (hn : e.isNumber = false) (hv : ∀ loc name, e ≠ .var loc name)
    (hf : ∀ loc index item out container condition,
      e ≠ .forEach loc index item out container condition)
    (hc : e.children = []) (hw : Silent (labelWords look e)) : Told look e := by
  have hs : e.spots = [] := by
    refine List.eq_nil_iff_forall_not_mem.mpr fun x hx => ?_
    have hm := Expr.mem_children_of_spots hx
    rw [hc] at hm
    cases hm
  refine told_form (Expr.kept_of_ne look hv hf) hn (by simp [hc]) ?_
  rw [hs]
  exact shows_silent hw

lemma told_scalar (loc : Location) (v : Scalar) : Told look (.scalar loc v) := by
  cases v with
  | number n =>
    refine told_of ?_ fun _ _ _ => legible_leaf rfl rfl
    have hneeds : ((Expr.scalar loc (.number n)).kept look).needs = [false] := Expr.needs_number loc n
    rw [hneeds]
    rfl
  | boolean b =>
    refine told_leaf rfl (by simp) (by simp) rfl ?_
    cases b <;> simp [Silent, labelWords, scalarWords, isNumberWord]
  | _ =>
    exact told_leaf rfl (by simp) (by simp) rfl (by simp [Silent, labelWords, scalarWords, isNumberWord])

lemma told_var (loc : Location) (name : String) : Told look (.var loc name) := by
  refine told_of ?_ fun _ _ _ => legible_leaf rfl rfl
  rw [Expr.kept_var, Expr.fillNode, labelWords]
  cases look name with
  | none => rw [Expr.needs_leaf rfl rfl]; rfl
  | some v =>
    cases v with
    | number n =>
      dsimp only [Expr.constant, Expr.writeSign, constantWords]
      by_cases hn : n < 0
      · rw [if_pos hn, if_pos hn, Expr.needs_of_isSigned rfl]
        rfl
      · rw [if_neg hn, if_neg hn, Expr.needs_number]
        rfl
    | boolean b => cases b <;> (rw [Expr.needs_leaf rfl rfl]; rfl)
    | _ => rw [Expr.needs_leaf rfl rfl]; rfl

section Forms

variable {loc : Location}

lemma told_list {items : List Expr} (h : ∀ e ∈ items, Told look e) : Told look (.list loc items) := by
  refine told_spots (by simp) (by simp) (by simp) rfl ?_
  rw [labelWords, Printer.wordsAll_eq, Expr.spots, List.map_eq_flatMap]
  exact Shows.behind (Shows.before (shows_commas h) rfl) rfl

lemma told_map {entries : List (String × Expr)} (h : ∀ x ∈ entries, Told look x.2) :
    Told look (.map loc entries) := by
  refine told_spots (by simp) (by simp) (by simp) rfl ?_
  have hkey (s : String) : isNumberWord (Printer.keyWord s) = false := by
    unfold Printer.keyWord
    split <;> rfl
  rw [labelWords, Printer.entryWords_eq, Expr.spots, List.map_eq_flatMap]
  refine Shows.behind (Shows.before (shows_commas fun x hx => ?_) rfl) rfl
  exact Shows.behind (Shows.behind (h x hx) rfl) (hkey x.1)

lemma told_lambda {params : List (String × Option Expr)} {body : Expr}
    (hp : ∀ x ∈ params, ∀ d ∈ x.2, Told look d) (hb : Told look body) :
    Told look (.lambda loc params body) := by
  refine told_spots (by simp) (by simp) (by simp) rfl ?_
  have hparam : ∀ x ∈ params, Shows look Anywhere (x.2.toList.map (false, ·))
      (paramWord (labelWords look) (x.1, Printer.writtenDefault x.2)) := by
    rintro ⟨name, d⟩ hx
    refine Shows.behind ?_ rfl
    rw [Printer.writtenDefault]
    split_ifs with hu
    · obtain ⟨loc', rfl⟩ := Expr.eq_undefined_of_isUndefined hu
      exact shows_unwritten rfl
    · cases d with
      | none => exact shows_silent (by simp [Silent, optionalWords])
      | some d => exact Shows.behind (hp _ hx d rfl) rfl
  have hspots : (params.filterMap Prod.snd).map (false, ·) =
      params.flatMap fun x => x.2.toList.map (false, ·) := by
    rw [List.filterMap_eq_flatMap_toList, List.map_flatMap]
  rw [Printer.labelWords_lambda, Expr.spots, hspots]
  refine Shows.behind (Shows.behind ((shows_commas hparam).and ?_) rfl) rfl
  exact Shows.behind (Shows.behind (Shows.before hb rfl) rfl) rfl

lemma told_unary {op : UnaryOp} {operand : Expr} (h : Told look operand) :
    Told look (.unary loc op operand) := by
  refine told_spots (by simp) (by simp) (by simp) rfl ?_
  have hplace := h.place (Printer.operandLevel op)
  cases op with
  | best s => exact (hplace.led rfl (by simp)).behind rfl
  | draw => exact (hplace.led rfl (by simp)).behind rfl
  | _ => exact hplace.led rfl (by simp)

lemma joint_ne_openParen (op : BinaryOp) : op.joint ≠ .mark .openParen := by
  cases op with
  | arithmetic op => cases op <;> simp [BinaryOp.joint, Arithmetic.mark]
  | compare op => cases op <;> simp [BinaryOp.joint, Comparison.mark]
  | _ => simp [BinaryOp.joint]

lemma closes_joint {op : BinaryOp} (h : op ≠ .sequence) : closes op.joint = false := by
  cases op with
  | sequence => exact absurd rfl h
  | arithmetic op => cases op <;> rfl
  | compare op => cases op <;> rfl
  | _ => rfl

lemma told_binary {op : BinaryOp} {left right : Expr} (hl : Told look left) (hr : Told look right) :
    Told look (.binary loc op left right) := by
  refine told_spots (by simp) (by simp) (by simp) rfl ?_
  have hleft := hl.place (Printer.leftLevel op)
  have hright := hr.place (Printer.rightLevel op)
  by_cases hop : op = .subscript
  · subst hop
    cases hn : Printer.entryName? right with
    | none =>
      rw [labelWords, hn]
      exact hleft.followed rfl (((hr.at .sequence).before rfl).behind rfl)
    | some name =>
      obtain ⟨loc', rfl⟩ := Printer.eq_string_of_entryName hn
      rw [labelWords, hn]
      have hname : Silent [.mark .dot, .name name] := by simp [Silent, isNumberWord]
      exact hleft.followed rfl ((shows_unwritten rfl).and (shows_silent hname))
  · rw [Printer.labelWords_binary look left right hop]
    have hbehind := hright.led (isNumberWord_joint op) (joint_ne_openParen op)
    cases op with
    | subscript => exact absurd rfl hop
    | sequence => exact (hl.at .sequence).and hbehind
    | bestOf s => exact ((hl.at .or).and hbehind).behind rfl
    | drawMany => exact (hleft.followed rfl hbehind).behind rfl
    | _ => exact hleft.followed (closes_joint (by simp)) hbehind

lemma told_repeating {form : RepeatForm} {body condition : Expr} {limit : Option Expr}
    (hone : form = .once → ∃ loc, limit = some (.scalar loc (.number 1)))
    (hb : Told look body) (hc : Told look condition) (hl : ∀ d ∈ limit, Told look d) :
    Told look (.repeating loc form body condition limit) := by
  have hlead : Silent [.keyword .limit] := silent_singleton rfl
  have hlimit := shows_optional hl hlead .or
  cases form with
  | once =>
    obtain ⟨loc', rfl⟩ := hone rfl
    -- the limit is not written
    refine told_form (Expr.kept_of_ne look (by simp) (by simp)) rfl (fun c hm => ?_)
      (((hb.at .or).and ((hc.at .or).behind rfl)).behind rfl)
    simp only [Expr.children, Option.toList_some, List.mem_cons, List.not_mem_nil, or_false] at hm
    rcases hm with rfl | rfl | rfl
    · exact .inl (by simp [Expr.spots])
    · exact .inl (by simp [Expr.spots])
    · exact .inr (legible_leaf rfl rfl)
  | before =>
    refine told_spots (by simp) (by simp) (by simp) rfl ?_
    rw [labelWords, Printer.clauseWords_eq]
    exact ((hc.at .or).and (((hb.at .or).and hlimit).behind rfl)).behind rfl
  | after =>
    refine told_spots (by simp) (by simp) (by simp) rfl ?_
    rw [labelWords, Printer.clauseWords_eq]
    exact ((hb.at .or).and (((hc.at .or).and hlimit).behind rfl)).behind rfl

lemma told_conditional {condition whenTrue whenFalse : Expr} (hc : Told look condition)
    (ht : Told look whenTrue) (hf : Told look whenFalse) :
    Told look (.conditional loc condition whenTrue whenFalse) := by
  refine told_spots (by simp) (by simp) (by simp) rfl ?_
  rw [labelWords]
  have hbranches := (ht.at .or).and ((hf.at .control).behind (w := .keyword .else) rfl)
  exact ((hc.at .or).and (hbranches.behind rfl)).behind rfl

lemma told_call {callee : Expr} {positional : List Expr} {named : List (String × Expr)}
    (hc : Told look callee) (hp : ∀ e ∈ positional, Told look e) (hn : ∀ x ∈ named, Told look x.2) :
    Told look (.call loc callee positional named) := by
  refine told_spots (by simp) (by simp) (by simp) rfl ?_
  have hargument : ∀ x ∈ Printer.callArguments positional named,
      Shows look Anywhere [(false, x.2)] (argumentWord (labelWords look) x) := by
    intro x hx
    rcases List.mem_append.mp hx with hx | hx
    · obtain ⟨e, he, rfl⟩ := List.mem_map.mp hx
      exact hp e he
    · obtain ⟨y, hy, rfl⟩ := List.mem_map.mp hx
      exact Shows.behind (Shows.behind (hn y hy) rfl) rfl
  have hspots : (positional ++ named.map Prod.snd).map (false, ·) =
      (Printer.callArguments positional named).flatMap fun x => [(false, x.2)] := by
    rw [← List.map_eq_flatMap]
    simp [Printer.callArguments, Function.comp_def]
  rw [Printer.labelWords_call, Expr.spots, hspots]
  exact (hc.place .subscript).followed rfl (((shows_commas hargument).before rfl).behind rfl)

lemma told_output {mode : OutputMode} {expression : Expr} {type : Option OutputType}
    {name : Option Expr} (he : Told look expression) (hn : ∀ e ∈ name, Told look e) :
    Told look (.output loc mode expression type name) := by
  refine told_spots (by simp) (by simp) (by simp) rfl ?_
  have htype : Silent (Printer.typeWords type) := by
    cases type with
    | none => simp [Silent, Printer.typeWords]
    | some t => cases t <;> simp [Silent, Printer.typeWords, OutputType.lexeme, isNumberWord]
  have hlead : Silent [] := by simp [Silent]
  have hname := shows_optional hn hlead .atom
  rw [labelWords, Printer.clauseWords_eq]
  exact ((he.at .assign).and ((shows_silent htype).and hname)).behind rfl

lemma told_importing {space : Option String} {address : Expr} (h : Told look address) :
    Told look (.importing loc space address) := by
  refine told_spots (by simp) (by simp) (by simp) rfl ?_
  have hspace : Silent (Printer.spaceWords space) := by
    cases space <;> simp [Silent, Printer.spaceWords, isNumberWord]
  exact ((shows_silent hspace).and (h.at .assign)).behind rfl

def loopParts (item : String) (out container : Expr) (condition : Option Expr) : List (Bool × Expr) :=
  (if Printer.isVar item out then [] else [(false, out)]) ++
    ([(false, container)] ++ condition.toList.map (false, ·))

lemma needs_kept_forEach (index : Option String) (item : String) (out container : Expr)
    (condition : Option Expr) :
    ((Expr.forEach loc index item out container condition).kept look).needs =
      partNeeds look (loopParts item out container condition) := by
  have hout : (if Printer.isVar item out then out else out.kept look).needsAt false =
      partNeeds look (if Printer.isVar item out then [] else [(false, out)]) := by
    split_ifs with hv
    · obtain ⟨loc', rfl⟩ := Printer.eq_var_of_isVar hv
      exact Expr.needs_leaf rfl rfl
    · rw [partNeeds_singleton]
  rw [Expr.kept_forEach, Expr.needs_of_spots rfl, Expr.spots, List.flatMap_cons, hout, loopParts,
    partNeeds, partNeeds, List.flatMap_append]
  cases condition <;> rfl

lemma shows_forEach {index : Option String} {item : String} {out container : Expr}
    {condition : Option Expr} (ho : Told look out) (hc : Told look container)
    (ht : ∀ d ∈ condition, Told look d) :
    Shows look Anywhere (loopParts item out container condition)
      (labelWords look (.forEach loc index item out container condition)) := by
  have hout : Shows look Anywhere (if Printer.isVar item out then [] else [(false, out)])
      (if Printer.isVar item out then [] else labelWordsAt look .or out) := by
    split
    · exact shows_silent (by simp [Silent])
    · exact ho.at .or
  have hcondition : Shows look Anywhere (condition.toList.map (false, ·)) (optionalWords [.keyword .if]
      ((Printer.writtenCondition condition).map (labelWordsAt look .or))) := by
    rw [Printer.writtenCondition]
    split_ifs with htrue
    · obtain ⟨loc', rfl⟩ := Expr.eq_true_of_isTrue htrue
      exact shows_unwritten rfl
    · exact shows_optional ht (silent_singleton rfl) .or
  have hindex : Silent (Printer.indexWords index) := by
    cases index <;> simp [Silent, Printer.indexWords, isNumberWord]
  rw [Printer.labelWords_forEach]
  refine hout.and (Shows.behind ((shows_silent hindex).and ?_) rfl)
  exact (((hc.at .or).and hcondition).behind rfl).behind rfl

lemma told_forEach {index : Option String} {item : String} {out container : Expr}
    {condition : Option Expr} (ho : Told look out) (hc : Told look container)
    (ht : ∀ d ∈ condition, Told look d) :
    Told look (.forEach loc index item out container condition) := by
  have hshows : Shows look Anywhere (loopParts item out container condition)
      (labelWords look (.forEach loc index item out container condition)) := shows_forEach ho hc ht
  refine told_of ?_ fun b behind hm => ?_
  · rw [needs_kept_forEach]
    exact hshows.length
  rw [needs_kept_forEach] at hm
  have hplaced := hshows.placed b behind trivial hm
  rw [loopParts, List.forall_mem_append, List.forall_mem_append] at hplaced
  obtain ⟨hout, hcontainer, hcondition⟩ := hplaced
  refine Expr.forall_within.mpr ⟨by simp [Expr.isMisplaced, Expr.spots], ?_⟩
  simp only [Expr.children, List.mem_cons, forall_eq_or_imp]
  refine ⟨?_, (hcontainer _ (List.mem_singleton_self _)).1,
    fun d hd => (hcondition _ (List.mem_map_of_mem hd)).1⟩
  by_cases hv : Printer.isVar item out = true
  · obtain ⟨loc', rfl⟩ := Printer.eq_var_of_isVar hv
    exact legible_leaf rfl rfl
  · rw [if_neg hv] at hout
    exact (hout _ (List.mem_singleton_self _)).1

end Forms

lemma told {e : Expr} (h : e.WellFormed) : Told look e := by
  induction e using Expr.children_induction with
  | step e ih =>
    have hr : e.Regular := h.regular
    replace ih : ∀ c ∈ e.children, Told look c := fun c hc => ih c hc (h.child hc)
    cases e with
    | scalar loc v => exact told_scalar loc v
    | interpolation loc fs =>
      exact told_leaf rfl (by simp) (by simp) rfl (by simp [Silent, labelWords, isNumberWord])
    | list loc items => exact told_list ih
    | map loc entries => exact told_map fun x hx => ih x.2 (List.mem_map_of_mem hx)
    | lambda loc params body =>
      simp only [Expr.children, List.mem_cons, forall_eq_or_imp] at ih
      exact told_lambda (fun x hx e he => ih.2 e (List.mem_filterMap.mpr ⟨x, hx, he⟩)) ih.1
    | unary loc op operand => exact told_unary (ih operand (by simp [Expr.children]))
    | binary loc op left right =>
      exact told_binary (ih left (by simp [Expr.children])) (ih right (by simp [Expr.children]))
    | forEach loc index item out container condition =>
      simp only [Expr.children, List.mem_cons, forall_eq_or_imp] at ih
      exact told_forEach ih.1 ih.2.1 fun x hx => ih.2.2 x (Option.mem_toList.mpr hx)
    | repeating loc form body condition limit =>
      simp only [Expr.children, List.mem_cons, forall_eq_or_imp] at ih
      exact told_repeating hr.2.2.2 ih.1 ih.2.1 fun x hx => ih.2.2 x (Option.mem_toList.mpr hx)
    | conditional loc condition whenTrue whenFalse =>
      simp only [Expr.children, List.mem_cons, List.not_mem_nil, or_false, forall_eq_or_imp,
        forall_eq] at ih
      exact told_conditional ih.1 ih.2.1 ih.2.2
    | call loc callee positional named =>
      simp only [Expr.children, List.mem_cons, List.mem_append, forall_eq_or_imp] at ih
      exact told_call ih.1 (fun e he => ih.2 e (.inl he))
        fun x hx => ih.2 x.2 (.inr (List.mem_map_of_mem hx))
    | scopeVariables loc which =>
      exact told_leaf rfl (by simp) (by simp) rfl (by simp [Silent, labelWords, isNumberWord])
    | output loc mode expression type name =>
      simp only [Expr.children, List.mem_cons, forall_eq_or_imp] at ih
      exact told_output ih.1 fun x hx => ih.2 x (Option.mem_toList.mpr hx)
    | importing loc space address => exact told_importing (ih address (by simp [Expr.children]))
    | var loc name => exact told_var loc name

lemma isNumber_kept (e : Expr) : (e.kept look).isNumber = (e.fill look).isNumber := by
  cases e with
  | var => rfl
  | forEach => rw [Expr.kept_forEach, Expr.fill_of_ne_var look (by simp)]; rfl
  | _ => rw [Expr.kept_of_ne look (by simp) (by simp), Expr.fill_of_ne_var look (by simp)]; rfl

lemma isSigned_kept (e : Expr) : (e.kept look).isSigned = (e.fill look).isSigned := by
  cases e with
  | var => rfl
  | forEach => rw [Expr.kept_forEach, Expr.fill_of_ne_var look (by simp)]; rfl
  | unary loc op operand =>
    rw [Expr.kept_of_ne look (by simp) (by simp), Expr.fill_of_ne_var look (by simp)]
    cases op with
    | minus => exact isNumber_kept operand
    | _ => rfl
  | _ => rw [Expr.kept_of_ne look (by simp) (by simp), Expr.fill_of_ne_var look (by simp)]; rfl

lemma needs_kept_sublist (look : Lookup) (e : Expr) :
    (e.kept look).needs.Sublist (e.fill look).needs := by
  induction e using Expr.children_induction with
  | step e ih =>
    have hat {c : Expr} (hc : c ∈ e.children) (t : Bool) :
        ((c.kept look).needsAt t).Sublist ((c.fill look).needsAt t) := by
      rw [Expr.needsAt, Expr.needsAt, isSigned_kept]
      split
      · exact .refl _
      · exact ih c hc
    have hform (hk : e.kept look = e.mapChildren (Expr.kept look))
        (hf : e.fill look = e.mapChildren (Expr.fill look)) :
        (e.kept look).needs.Sublist (e.fill look).needs := by
      rw [Expr.needs_eq, Expr.needs_eq, isNumber_kept, hk, hf, Expr.spots_mapChildren,
        Expr.spots_mapChildren, List.flatMap_map, List.flatMap_map]
      exact (List.Sublist.refl _).append
        (List.Sublist.flatMap_right _ fun x hx => hat (Expr.mem_children_of_spots hx) x.1)
    cases e with
    | var => exact .refl _
    | forEach loc index item out container condition =>
      rw [Expr.kept_forEach, Expr.fill_of_ne_var look (by simp), Expr.mapChildren,
        Expr.needs_of_spots rfl, Expr.needs_of_spots rfl, Expr.spots, Expr.spots]
      simp only [List.flatMap_cons]
      refine .append ?_ (.append (hat (by simp [Expr.children]) false) ?_)
      · split_ifs with hv
        · obtain ⟨loc', rfl⟩ := Printer.eq_var_of_isVar hv
          rw [Expr.needsAt_false, Expr.needs_leaf rfl rfl]
          exact List.nil_sublist _
        · exact hat (by simp [Expr.children]) false
      · cases condition with
        | none => exact .refl _
        | some d => simpa using hat (by simp [Expr.children]) false
    | _ => exact hform (Expr.kept_of_ne look (by simp) (by simp)) (Expr.fill_of_ne_var look (by simp))

lemma legible_of_meets {e : Expr} (h : e.WellFormed) {s rest : List Lexeme}
    (hw : labelWords look e ++ [.eof] = s ++ rest)
    (hm : Meets (e.fill look).needs (given [] .other s)) : Legible look e := by
  have ht : Told look e := told h
  have hsub := needs_kept_sublist look e
  have hkept : (e.kept look).needs.length = (labelWords look e).countP isNumberWord := by
    rw [← ht.length, partNeeds_singleton, Expr.needsAt_false]
  have hcount : (labelWords look e).countP isNumberWord =
      s.countP isNumberWord + rest.countP isNumberWord := by
    have hall := congrArg (List.countP isNumberWord) hw
    rwa [List.countP_append, List.countP_append, show [Lexeme.eof].countP isNumberWord = 0 from rfl,
      Nat.add_zero] at hall
  have hread : (e.fill look).needs.length = s.countP isNumberWord := by
    rw [hm.length_eq, length_given]
  have hle := hsub.length_le
  -- no number is left behind the words that are read
  have hrest : (given [] (Preceding.other.run s) rest).length = 0 := by
    rw [length_given]
    omega
  have hgiven : given rest .other s = given [.eof] .other (labelWords look e) := by
    have hall := congrArg (given [] .other) hw
    rw [given_append, given_append, List.length_eq_zero_iff.mp hrest, List.append_nil,
      List.append_nil] at hall
    have heof (b : Preceding) : given [] b [Lexeme.eof] = [] := rfl
    rwa [heof, List.append_nil, List.append_nil, eq_comm] at hall
  have hgives : Meets (e.kept look).needs (given [.eof] .other (labelWords look e)) := by
    rw [hsub.eq_of_length_le (by omega), ← hgiven]
    exact hm.trans (given_mono (.inl rfl) rest s)
  have hplaced := ht.placed .other [.eof] trivial (by rwa [partNeeds_singleton, Expr.needsAt_false])
  exact (hplaced _ (List.mem_singleton_self _)).1

end DiceLang.Parser

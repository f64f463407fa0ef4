import DiceLang.Proofs.Expr.Edges
import DiceLang.Proofs.Expr.Reread
import DiceLang.Proofs.Expr.WellFormed

/-! When reading a text again and writing it once more gives the same text. To see which parentheses go, words
are counted. -/

namespace DiceLang.Expr

open Printer (words wordsAt commas)

/-- An import whose text is that of an import into a name, with parentheses that such an import does
without. -/
def isUnstable : Expr → Bool
  | .importing _ none (.binary _ .assign (.var ..) (.binary _ .assign ..)) => true
  | _ => false

lemma eq_assign_of_precedence {e : Expr} (h : e.precedence = .assign) :
    ∃ loc left right, e = .binary loc .assign left right := by
  cases e with
  | binary loc op left right =>
    cases op with
    | assign => exact ⟨loc, left, right, rfl⟩
    | arithmetic op => cases op <;> simp [precedence, BinaryOp.precedence] at h
    | _ => simp [precedence, BinaryOp.precedence] at h
  | scalar loc v =>
    cases v with
    | number n =>
      simp only [precedence] at h
      split at h <;> simp at h
    | _ => simp [precedence] at h
  | unary loc op operand => cases op <;> simp [precedence, UnaryOp.precedence] at h
  | _ => simp [precedence] at h

lemma isUnstable_misread {loc loc₁ loc₂ : Location} {name : String} {right : Expr} :
    (importing loc none (.binary loc₁ .assign (.var loc₂ name) right)).isUnstable = true ↔
      right.precedence = .assign := by
  constructor
  · intro h
    match right, h with
    | .binary _ .assign .., _ => rfl
  · intro h
    obtain ⟨loc₃, l, r, rfl⟩ := eq_assign_of_precedence h
    rfl

lemma isUnstable_of_not_isMisread {e : Expr} (h : e.isMisread = false) : e.isUnstable = false := by
  by_contra hu
  match e, hu with
  | .importing _ none (.binary _ .assign (.var ..) (.binary _ .assign ..)), _ => cases h

lemma isUnstable_mapChildren_reread (e : Expr) :
    (e.mapChildren reread).isUnstable = e.isUnstable := by
  cases e with
  | importing loc space address =>
    by_cases hm : (importing loc space address).isMisread = true
    · match space, address, hm with
      | none, .binary loc₁ .assign (.var loc₂ name) right, _ =>
        rw [Bool.eq_iff_iff, isUnstable_misread, ← (sameForm_reread right).precedence]
        exact isUnstable_misread
    · have hm : (importing loc space address).isMisread = false := by simpa using hm
      rw [isUnstable_of_not_isMisread hm]
      exact isUnstable_of_not_isMisread ((isMisread_reread loc space address).trans hm)
  | _ => rfl

def parts : Expr → List Expr
  | .lambda _ params body =>
    (params.flatMap fun x => if Printer.isUndefined x.2 then [] else x.2.toList) ++ [body]
  | .binary _ .subscript left right =>
    match Printer.entryName? right with
    | some _ => [left]
    | none => [left, right]
  | .forEach _ _ item out container condition =>
    (if Printer.isVar item out then [] else [out]) ++ container ::
      (if Printer.isTrue condition then [] else condition.toList)
  | .repeating _ .before body condition limit => condition :: body :: limit.toList
  | .repeating _ .once body condition _ => [body, condition]
  | e => e.children

lemma mem_parts {c e : Expr} (hr : e.Regular) (hc : c ∈ e.children) :
    c ∈ e.parts ∨ (∃ loc v, c = .scalar loc v) ∨ ∃ loc name, c = .var loc name := by
  cases e with
  | lambda loc params body =>
    rcases List.mem_cons.mp hc with rfl | hc
    · exact .inl (by simp [parts])
    · obtain ⟨x, hx, hxc⟩ := List.mem_filterMap.mp hc
      by_cases hu : Printer.isUndefined x.2 = true
      · rw [hxc] at hu
        obtain ⟨loc, ⟨⟩⟩ := eq_undefined_of_isUndefined hu
        exact .inr (.inl ⟨loc, _, rfl⟩)
      · refine .inl (List.mem_append_left _ (List.mem_flatMap.mpr ⟨x, hx, ?_⟩))
        rw [if_neg hu, Option.mem_toList]
        exact hxc
  | binary loc op left right =>
    cases op with
    | subscript =>
      cases hn : Printer.entryName? right with
      | none => exact .inl (by simpa [parts, children, hn] using hc)
      | some name =>
        rcases List.mem_cons.mp hc with rfl | hc
        · exact .inl (by simp [parts, hn])
        · obtain rfl : c = right := by simpa using hc
          obtain ⟨loc, rfl⟩ := Printer.eq_string_of_entryName hn
          exact .inr (.inl ⟨loc, _, rfl⟩)
    | _ => exact .inl hc
  | forEach loc index item out container condition =>
    simp only [children, List.mem_cons] at hc
    rcases hc with rfl | rfl | hc
    · by_cases hv : Printer.isVar item c = true
      · obtain ⟨loc, rfl⟩ := Printer.eq_var_of_isVar hv
        exact .inr (.inr ⟨loc, item, rfl⟩)
      · exact .inl (by simp [parts, hv])
    · exact .inl (by simp [parts])
    · obtain rfl := Option.mem_toList.mp hc
      by_cases ht : Printer.isTrue (some c) = true
      · obtain ⟨loc, ⟨⟩⟩ := eq_true_of_isTrue ht
        exact .inr (.inl ⟨loc, _, rfl⟩)
      · exact .inl (by simp [parts, ht])
  | repeating loc form body condition limit =>
    simp only [children, List.mem_cons] at hc
    cases form with
    | before => exact .inl (by simp only [parts, List.mem_cons]; tauto)
    | after => exact .inl (by simp only [parts, children, List.mem_cons]; tauto)
    | once =>
      rcases hc with rfl | rfl | hc
      · exact .inl (by simp [parts])
      · exact .inl (by simp [parts])
      · obtain ⟨loc', rfl⟩ := hr.2.2.2 rfl
        obtain rfl : c = .scalar loc' (.number 1) := by simpa using hc
        exact .inr (.inl ⟨loc', _, rfl⟩)
  | _ => exact .inl hc

lemma mem_children_of_mem_parts {c e : Expr} (hc : c ∈ e.parts) : c ∈ e.children := by
  cases e with
  | lambda loc params body =>
    rcases List.mem_append.mp hc with hc | hc
    · obtain ⟨x, hx, hxc⟩ := List.mem_flatMap.mp hc
      split at hxc
      · simp at hxc
      · exact List.mem_cons_of_mem _ (List.mem_filterMap.mpr ⟨x, hx, Option.mem_toList.mp hxc⟩)
    · obtain rfl : c = body := by simpa using hc
      exact List.mem_cons_self
  | binary loc op left right =>
    cases op with
    | subscript =>
      simp only [parts] at hc
      split at hc
      · obtain rfl : c = left := by simpa using hc
        exact List.mem_cons_self
      · exact hc
    | _ => exact hc
  | forEach loc index item out container condition =>
    simp only [parts, List.mem_append, List.mem_cons] at hc
    simp only [children, List.mem_cons]
    rcases hc with hc | rfl | hc
    · split at hc
      · simp at hc
      · exact .inl (by simpa using hc)
    · exact .inr (.inl rfl)
    · split at hc
      · simp at hc
      · exact .inr (.inr hc)
  | repeating loc form body condition limit =>
    cases form with
    | before =>
      simp only [parts, children, List.mem_cons] at hc ⊢
      tauto
    | after => exact hc
    | once =>
      simp only [parts, children, List.mem_cons, List.not_mem_nil, or_false] at hc ⊢
      tauto
  | _ => exact hc

def Balanced (g : Expr → Expr) (ws' ws : List Lexeme) (cs : List Expr) : Prop :=
  ws'.length + (cs.map fun c => (words c).length).sum =
    ws.length + (cs.map fun c => (words (g c)).length).sum

section

variable {g : Expr → Expr} {ws ws' vs vs' : List Lexeme} {cs ds : List Expr}

lemma Balanced.refl (ws : List Lexeme) : Balanced g ws ws [] := rfl

lemma Balanced.append (h : Balanced g ws' ws cs) (h' : Balanced g vs' vs ds) :
    Balanced g (ws' ++ vs') (ws ++ vs) (cs ++ ds) := by
  simp only [Balanced, List.length_append, List.map_append, List.sum_append] at h h' ⊢
  omega

lemma Balanced.own (l : Lexeme) (h : Balanced g ws' ws cs) : Balanced g (l :: ws') (l :: ws) cs :=
  (Balanced.refl [l]).append h

lemma balanced_words (g : Expr → Expr) (c : Expr) : Balanced g (words (g c)) (words c) [c] := by
  simp only [Balanced, List.map_cons, List.map_nil, List.sum_cons, List.sum_nil]
  omega

lemma balanced_wordsAt (hf : ∀ c, SameForm (g c) c) (level : Precedence) (c : Expr) :
    Balanced g (wordsAt level (g c)) (wordsAt level c) [c] := by
  have h := balanced_words g c
  rw [wordsAt, wordsAt]
  by_cases hl : c.precedence.rank < level.rank
  · rw [Printer.labelWordsAt, Printer.labelWordsAt, Printer.enclosed_of_lt hl,
      Printer.enclosed_of_lt ((hf c).precedence ▸ hl)]
    exact (h.append (.refl [.mark .closeParen])).own _
  · have hle := Nat.not_lt.mp hl
    rwa [Printer.labelWordsAt_of_le _ level hle,
      Printer.labelWordsAt_of_le _ level (by rwa [(hf c).precedence])]

lemma balanced_clause (hf : ∀ c, SameForm (g c) c) (lead : List Lexeme) (level : Precedence)
    (e : Option Expr) :
    Balanced g (Printer.clauseWords (fun _ => none) lead level (e.map g))
      (Printer.clauseWords (fun _ => none) lead level e) e.toList := by
  cases e with
  | none => exact .refl []
  | some e =>
    rw [Option.map_some, Printer.clauseWords, Printer.clauseWords]
    exact (Balanced.refl lead).append (balanced_wordsAt hf level e)

lemma balanced_commas {α : Type} (xs : List α) (f' f : α → List Lexeme) (k : α → List Expr)
    (h : ∀ x ∈ xs, Balanced g (f' x) (f x) (k x)) :
    Balanced g (commas (xs.map f')) (commas (xs.map f)) (xs.flatMap k) := by
  induction xs with
  | nil => exact .refl []
  | cons x xs ih =>
    have hx := h x (by simp)
    have hxs := ih fun y hy => h y (by simp [hy])
    cases xs with
    | nil => simpa [commas] using hx
    | cons y ys => exact hx.append (hxs.own (.mark .comma))

lemma balanced_param (hf : ∀ c, SameForm (g c) c) (x : String × Option Expr) :
    Balanced g (Printer.paramWord words (x.1, Printer.writtenDefault (x.2.map g)))
      (Printer.paramWord words (x.1, Printer.writtenDefault x.2))
      (if Printer.isUndefined x.2 then [] else x.2.toList) := by
  refine Balanced.own _ ?_
  rw [Printer.writtenDefault, Printer.writtenDefault, isUndefined_map hf]
  split
  · exact .refl []
  · cases x.2 with
    | none => exact .refl []
    | some e => exact (balanced_words g e).own (.mark .colon)

lemma balanced_argument (x : Option String × Expr) :
    Balanced g (Printer.argumentWord words (x.1, g x.2)) (Printer.argumentWord words x) [x.2] := by
  obtain ⟨name, e⟩ := x
  cases name with
  | none => exact balanced_words g e
  | some name => exact ((balanced_words g e).own (.mark .colon)).own (.name name)

lemma balanced_binary (hf : ∀ c, SameForm (g c) c) (loc : Location) (op : BinaryOp) (left right : Expr) :
    Balanced g (words (.binary loc op (g left) (g right))) (words (.binary loc op left right))
      (parts (.binary loc op left right)) := by
  have hl := balanced_wordsAt hf (Printer.leftLevel op) left
  have hr := balanced_wordsAt hf (Printer.rightLevel op) right
  by_cases hop : op = .subscript
  · subst hop
    cases hn : Printer.entryName? right with
    | none =>
      have h := hl.append ((hr.append (.refl [.mark .closeBracket])).own (.mark .openBracket))
      simpa [Printer.labelWords, parts, (hf right).entryName?, hn, Printer.operatorWords,
        Printer.binaryWords, BinaryOp.joint, Printer.labelWordsAt] using h
    | some name =>
      have h := hl.append (.refl [.mark .dot, .name name])
      simpa [Printer.labelWords, parts, (hf right).entryName?, hn, Printer.operatorWords,
        Printer.labelWordsAt] using h
  · have h := hl.append (hr.own op.joint)
    rw [words, words, Printer.labelWords_binary _ _ _ hop, Printer.labelWords_binary _ _ _ hop]
    cases op with
    | bestOf s => exact h.own (.keyword s.word)
    | drawMany => exact h.own (.keyword .draw)
    | subscript => exact absurd rfl hop
    | _ => exact h

lemma balanced_forEach (hf : ∀ c, SameForm (g c) c) (loc : Location) (index : Option String) (item : String)
    (out container : Expr) (condition : Option Expr) :
    Balanced g (words (.forEach loc index item (g out) (g container) (condition.map g)))
      (words (.forEach loc index item out container condition))
      (parts (.forEach loc index item out container condition)) := by
  have ho : Balanced g (if Printer.isVar item out then [] else wordsAt .or (g out))
      (if Printer.isVar item out then [] else wordsAt .or out)
      (if Printer.isVar item out then [] else [out]) := by
    split
    · exact .refl []
    · exact balanced_wordsAt hf .or out
  have ht : Balanced g
      (if Printer.isTrue condition then [] else
        Printer.clauseWords (fun _ => none) [.keyword .if] .or (condition.map g))
      (if Printer.isTrue condition then [] else
        Printer.clauseWords (fun _ => none) [.keyword .if] .or condition)
      (if Printer.isTrue condition then [] else condition.toList) := by
    split
    · exact .refl []
    · exact balanced_clause hf _ _ condition
  have h := ho.append (((Balanced.refl (Printer.indexWords index)).append
    ((((balanced_wordsAt hf .or container).append ht).own (.keyword .in)).own (.name item))).own
    (.keyword .for))
  simpa [Printer.labelWords, parts, (hf out).isVar, isTrue_map hf, Printer.labelWordsAt] using h

lemma balanced_repeating (hf : ∀ c, SameForm (g c) c) (loc : Location) (form : RepeatForm)
    (body condition : Expr) (limit : Option Expr) :
    Balanced g (words (.repeating loc form (g body) (g condition) (limit.map g)))
      (words (.repeating loc form body condition limit))
      (parts (.repeating loc form body condition limit)) := by
  have hb := balanced_wordsAt hf .or body
  have hc := balanced_wordsAt hf .or condition
  have hl := balanced_clause hf [.keyword .limit] .or limit
  cases form with
  | before =>
    have h := (hc.append ((hb.append hl).own (.keyword .repeat))).own (.keyword .while)
    simpa [Printer.labelWords, parts, Printer.repeatWords, Printer.labelWordsAt] using h
  | after =>
    have h := (hb.append ((hc.append hl).own (.keyword .while))).own (.keyword .repeat)
    simpa [Printer.labelWords, parts, children, Printer.repeatWords, Printer.labelWordsAt] using h
  | once =>
    have h := (hb.append (hc.own (.keyword .if))).own (.keyword .repeat)
    simpa [Printer.labelWords, parts, Printer.repeatWords, Printer.labelWordsAt] using h

lemma balanced_mapChildren (hf : ∀ c, SameForm (g c) c) (e : Expr) :
    Balanced g (words (e.mapChildren g)) (words e) e.parts := by
  cases e with
  | scalar loc v => exact .refl _
  | interpolation loc fs => exact .refl _
  | scopeVariables loc which => exact .refl _
  | var loc name => exact .refl _
  | list loc items =>
    have h := balanced_commas items (fun c => words (g c)) words (fun c => [c]) fun c _ =>
      balanced_words g c
    have h' := (h.append (.refl [.mark .closeBracket])).own (.mark .openBracket)
    simpa [mapChildren, Printer.labelWords, parts, children, Printer.wordsAll_eq, Function.comp_def] using h'
  | map loc entries =>
    have h := balanced_commas entries _ _ (fun x => [x.2]) fun x _ =>
      ((balanced_words g x.2).own (.mark .colon)).own (Printer.keyWord x.1)
    have h' := (h.append (.refl [.mark .closeBrace])).own (.mark .openBrace)
    simpa [mapChildren, Printer.labelWords, parts, children, Printer.entryWords_eq, Function.comp_def,
      ← List.map_eq_flatMap] using h'
  | lambda loc params body =>
    have h := balanced_commas params _ _ _ fun x _ => balanced_param hf x
    have h' := ((h.append (((balanced_words g body).append (.refl [.mark .closeBrace])).own
      (.mark .openBrace) |>.own (.mark .closeParen))).own (.mark .openParen)).own (.keyword .fun)
    simpa [mapChildren, Printer.labelWords_lambda, parts, Function.comp_def] using h'
  | unary loc op operand =>
    have h := (Balanced.refl (Printer.openingWords op)).append
      (balanced_wordsAt hf (Printer.operandLevel op) operand)
    simpa [mapChildren, Printer.labelWords, parts, children, Printer.labelWordsAt] using h
  | binary loc op left right => exact balanced_binary hf loc op left right
  | forEach loc index item out container condition =>
    exact balanced_forEach hf loc index item out container condition
  | repeating loc form body condition limit => exact balanced_repeating hf loc form body condition limit
  | conditional loc condition whenTrue whenFalse =>
    have h := ((balanced_wordsAt hf .or condition).append (((balanced_wordsAt hf .or whenTrue).append
      ((balanced_wordsAt hf .control whenFalse).own (.keyword .else))).own (.keyword .then))).own
      (.keyword .if)
    simpa [mapChildren, Printer.labelWords, parts, children, Printer.labelWordsAt] using h
  | call loc callee positional named =>
    have h := balanced_commas (Printer.callArguments positional named)
      (fun x => Printer.argumentWord words (x.1, g x.2)) _ (fun x => [x.2])
      fun x _ => balanced_argument x
    have h' := (balanced_wordsAt hf .subscript callee).append
      ((h.append (.refl [.mark .closeParen])).own (.mark .openParen))
    simpa [mapChildren, Printer.labelWords_call, parts, children, Printer.callArguments,
      Function.comp_def, ← List.map_eq_flatMap] using h'
  | output loc mode expression type name =>
    have h := ((balanced_wordsAt hf .assign expression).append
      ((Balanced.refl (Printer.typeWords type)).append (balanced_clause hf [] .atom name))).own
      (.keyword mode.word)
    simpa [mapChildren, Printer.labelWords, parts, children, Printer.labelWordsAt] using h
  | importing loc space address =>
    have h := ((Balanced.refl (Printer.spaceWords space)).append
      (balanced_wordsAt hf .assign address)).own (.keyword .import)
    simpa [mapChildren, Printer.labelWords, parts, children, Printer.labelWordsAt] using h

end

lemma words_place (loc : Location) (e : Expr) : words (e.place loc) = words e := by
  cases e <;> simp only [place, words, Printer.labelWords]

lemma words_trimmed (e : Expr) : words e.trimmed = words e := by
  cases e with
  | lambda loc params body =>
    have hp : (params.map fun x =>
        Printer.paramWord words
          (x.1, Printer.writtenDefault (if Printer.isUndefined x.2 then none else x.2))) =
        params.map fun x => Printer.paramWord words (x.1, Printer.writtenDefault x.2) := by
      apply List.map_congr_left
      intro x _
      by_cases h : Printer.isUndefined x.2
      · simp only [Printer.writtenDefault, if_pos h]
        rfl
      · simp only [if_neg h]
    rw [trimmed, words, words, Printer.labelWords_lambda, Printer.labelWords_lambda, List.map_map]
    exact congrArg (fun ws => Lexeme.keyword .fun :: .mark .openParen :: (commas ws ++ _)) hp
  | forEach loc index item out container condition =>
    by_cases h : Printer.isTrue condition
    · simp only [trimmed, words, Printer.labelWords, h, if_true, Printer.clauseWords, ite_self]
    · simp only [trimmed, h, Bool.false_eq_true, if_false]
  | _ => rfl

lemma length_words_bare (e : Expr) : (words e.bare).length = (words e).length := by
  induction e using children_induction with
  | step e ih =>
    have hb : _ + _ = _ + _ := balanced_mapChildren sameForm_bare e
    have hs : (e.parts.map fun c => (words c.bare).length) = e.parts.map fun c => (words c).length :=
      List.map_congr_left fun c hc => ih c (mem_children_of_mem_parts hc)
    rw [hs] at hb
    rw [bare_eq, words_trimmed, words_place]
    exact Nat.add_right_cancel hb

lemma length_words_nameImport (e : Expr) :
    (words (nameImport e)).length ≤ (words e).length ∧
      ((words e).length ≤ (words (nameImport e)).length → e.isUnstable = false) := by
  by_cases hm : e.isMisread = true
  · match e, hm with
    | .importing loc none (.binary loc₁ .assign (.var loc₂ name) right), _ =>
      have hw : words (.importing loc none (.binary loc₁ .assign (.var loc₂ name) right)) =
          .keyword .import :: .name name :: .mark .assign :: wordsAt .control right := by
        rw [words, Printer.labelWords]
        exact congrArg (Lexeme.keyword .import :: ·) (Printer.labelWordsAt_assign _ loc₁ (.var loc₂ name) right)
      have hw' : words (nameImport (.importing loc none (.binary loc₁ .assign (.var loc₂ name) right)))
          = .keyword .import :: .name name :: .mark .assign :: wordsAt .assign right := by
        rw [nameImport, words, Printer.labelWords]
        rfl
      rw [hw, hw', wordsAt, wordsAt]
      simp only [List.length_cons]
      by_cases hp : right.precedence = .assign
      · have hlt : right.precedence.rank < Precedence.control.rank := by rw [hp]; decide
        have hle : Precedence.assign.rank ≤ right.precedence.rank := by rw [hp]
        rw [Printer.labelWordsAt_of_le _ .assign hle, Printer.labelWordsAt, Printer.enclosed_of_lt hlt]
        simp only [List.length_cons, List.length_append, List.length_nil]
        exact ⟨by omega, fun h => by omega⟩
      · rw [Printer.labelWordsAt_up _ (p := .assign) (by simp) hp]
        exact ⟨le_rfl, fun _ => by simpa using mt isUnstable_misread.mp hp⟩
  · have hm : e.isMisread = false := by simpa using hm
    rw [nameImport_of_not_isMisread hm]
    exact ⟨le_rfl, fun _ => isUnstable_of_not_isMisread hm⟩

lemma forall_le_of_sum_le {cs : List Expr} {f' f : Expr → Nat} (hle : ∀ c ∈ cs, f' c ≤ f c)
    (hs : (cs.map f).sum ≤ (cs.map f').sum) : ∀ c ∈ cs, f c ≤ f' c := by
  induction cs with
  | nil => simp
  | cons d cs ih =>
    simp only [List.map_cons, List.sum_cons, List.mem_cons, forall_eq_or_imp] at hle hs ⊢
    have htail : (cs.map f').sum ≤ (cs.map f).sum := List.sum_le_sum hle.2
    exact ⟨by omega, ih hle.2 (by omega)⟩

lemma length_words_reread {e : Expr} (h : e.WellFormed) :
    (words e.reread).length ≤ (words e).length ∧
      ((words e).length ≤ (words e.reread).length → ∀ n, Within n e → n.isUnstable = false) := by
  induction e using children_induction with
  | step e ih =>
    have ih : ∀ c ∈ e.children, _ ∧ _ := fun c hc => ih c hc (h.child hc)
    have hle : ∀ c ∈ e.parts, (words c.reread).length ≤ (words c).length :=
      fun c hc => (ih c (mem_children_of_mem_parts hc)).1
    have hb : _ + _ = _ + _ := balanced_mapChildren sameForm_reread e
    have hsum : (e.parts.map fun c => (words c.reread).length).sum ≤
        (e.parts.map fun c => (words c).length).sum := List.sum_le_sum hle
    obtain ⟨hn, hstable⟩ := length_words_nameImport (e.mapChildren reread)
    rw [isUnstable_mapChildren_reread] at hstable
    rw [reread_eq]
    refine ⟨by omega, fun hge => ?_⟩
    have hparts := forall_le_of_sum_le hle (by omega)
    rw [forall_within]
    refine ⟨hstable (by omega), fun c hc => ?_⟩
    rcases mem_parts h.regular hc with hp | ⟨loc, v, rfl⟩ | ⟨loc, name, rfl⟩
    · exact (ih c hc).2 (hparts c hp)
    · exact forall_within_leaf rfl rfl
    · exact forall_within_leaf rfl rfl

lemma node_nameImport {e : Expr} (h : e.isUnstable = false) :
    Printer.node (fun _ => none) (nameImport e) = Printer.node (fun _ => none) e := by
  by_cases hm : e.isMisread = true
  · match e, hm with
    | .importing loc none (.binary loc₁ .assign (.var loc₂ name) right), _ =>
      have hp : right.precedence ≠ .assign := by
        intro hp
        rw [isUnstable_misread.mpr hp] at h
        cases h
      have hup : Printer.enclose right .control (Printer.node (fun _ => none) right) =
          Printer.enclose right .assign (Printer.node (fun _ => none) right) := by
        simp only [Printer.enclose]
        exact if_congr (Precedence.lt_rank_up (p := .assign) (by simp) hp) rfl rfl
      have haddress : Printer.enclose (.binary loc₁ .assign (.var loc₂ name) right) .assign
          (Printer.node (fun _ => none) (.binary loc₁ .assign (.var loc₂ name) right)) =
          name ++ " = " ++ Printer.enclose right .assign (Printer.node (fun _ => none) right) := by
        rw [← hup, Printer.node]
        · rfl
        · simp
      rw [nameImport, Printer.node, Printer.node, haddress]
      simp [String.append_assoc]
  · rw [nameImport_of_not_isMisread (by simpa using hm)]

lemma node_reread {e : Expr} (h : ∀ n, Within n e → n.isUnstable = false) :
    Printer.node (fun _ => none) e.reread = Printer.node (fun _ => none) e := by
  induction e using children_induction with
  | step e ih =>
    rw [forall_within] at h
    rw [reread_eq, node_nameImport (by rw [isUnstable_mapChildren_reread, h.1]),
      node_mapChildren sameForm_reread fun c hc => ih c hc (h.2 c hc)]

end DiceLang.Expr

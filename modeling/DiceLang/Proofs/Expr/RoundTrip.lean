import DiceLang.Proofs.Expr.Spelling
import DiceLang.Proofs.Label.Derivation
import DiceLang.Proofs.Parser.Grammatical

/-! Reading the text of an expression gives the expression, but for imports that assign and for names that are
read as dice when they stand alone. -/

namespace DiceLang

lemma Expr.toList_label (look : Lookup) (e : Expr) :
    (e.label look .sequence).toList = Printer.spelling look e := by
  have h : ¬ e.precedence.rank < Precedence.sequence.rank := Nat.not_lt_zero _
  rw [label, Printer.enclose, if_neg h, Printer.spelling]

lemma Expr.toList_source (e : Expr) : e.source.toList = Printer.spelling (fun _ => none) e :=
  e.toList_label _

lemma lex_label {look : Lookup} {e : Expr} (h : e.WellFormed)
    (hmin : ∀ n, Expr.Within n e → n.isLeast look = false) (hg : (e.fill look).isGlued = false) :
    ∃ ts, lex (e.label look .sequence) = .ok ts ∧
      ts.map Token.lexeme = Printer.labelWords look e ++ [.eof] := by
  apply lex_of_readings
  have hr := (Printer.spelt e h hmin).reads hg [] (Lexer.Ends.apart Lexer.ends_nil _)
  rw [List.append_nil] at hr
  rw [e.toList_label, hr]
  simp [Lexer.readings_nil]

lemma lex_source {e : Expr} (h : e.WellFormed) (hg : e.isGlued = false) :
    ∃ ts, lex e.source = .ok ts ∧ ts.map Token.lexeme = Printer.words e ++ [.eof] :=
  lex_label h (fun n _ => n.isLeast_none) (e.fill_none.symm ▸ hg)

namespace Parser

lemma sections_single {t : Expr} {c c' : Cursor} {rank : Nat} {ws rest : List Lexeme} (fuel : Nat)
    (hl : Printer.Led rank ws) (hc : c.words = ws ++ rest) (hs : statement c = .ok t c')
    (hw : c'.words = [.eof]) : sections (fuel + 1) c = [.ok t] := by
  have hne {l : Lexeme} (hl' : l.lead? = none) : c.lexeme ≠ l := by
    rw [c.lexeme_eq, hc]
    exact led_ne hl (by rw [hl']; rintro p ⟨⟩) rest
  have hend : sections fuel c' = [] := by
    cases fuel with
    | zero => rfl
    | succ fuel => rw [sections, if_pos (Cursor.lexeme_of_words hw)]
  rw [sections, if_neg (hne rfl), if_neg (hne rfl), hs]
  simp only [hend]

lemma program_derives {ws : List Lexeme} {t : Expr} (h : Derives ws .sequence t) (name : String)
    {ts : List Token} (ht : ts.map Token.lexeme = ws ++ [.eof]) :
    ∃ e', program name ts = .ok [e'] ∧ e'.Alike t := by
  have hlen : ws.length < ts.length + 1 := by
    have hl := congrArg List.length ht
    simp only [List.length_map, List.length_append, List.length_cons, List.length_nil] at hl
    omega
  obtain ⟨e', c', ho, hw, ha⟩ := h.nested (n := ts.length + 1) hlen
    (stops_of_none rfl 0 []) ⟨name, none, ts⟩ ht
  have hs : statement ⟨name, none, ts⟩ = .ok e' c' := by
    have hb : statement ⟨name, none, ts⟩ = (parseAt (ts.length + 1) .sequence >>= fun e => do
        if atEnd (← peek) then return e
        fail .trailing) ⟨name, none, ts⟩ := rfl
    rw [hb, run_bind ho, run_peek, Cursor.lexeme_of_words hw]
    rfl
  refine ⟨e', ?_, ha⟩
  have hone := sections_single (c := ⟨name, none, ts⟩) ts.length h.led ht hs hw
  simp only [program, hone]
  rfl

end Parser

lemma parse_label {look : Lookup} {e : Expr} (h : e.WellFormed)
    (hmin : ∀ n, Expr.Within n e → n.isLeast look = false) (hl : Parser.Legible look e)
    (hg : (e.fill look).isGlued = false) (name : String) :
    ∃ e', parse name (e.label look .sequence) = .ok [e'] ∧ e'.Alike (e.shown look) := by
  obtain ⟨ts, ht, hw⟩ := lex_label h hmin hg
  obtain ⟨e', hp, ha⟩ := Parser.program_derives (Parser.reread_with_children e h hl).1.whole name hw
  exact ⟨e', by rw [parse, ht]; exact hp, ha⟩

lemma parse_source {e : Expr} (h : e.WellFormed) (hg : e.isGlued = false) (name : String) :
    ∃ e', parse name e.source = .ok [e'] ∧ e'.Alike e.reread := by
  have hp := parse_label h (fun n _ => n.isLeast_none) (Parser.legible_none e)
    (e.fill_none.symm ▸ hg) name
  rwa [Expr.shown, e.kept_none] at hp

lemma words_of_source_eq {a b : Expr} (ha : a.Fits false) (hb : b.Fits false)
    (h : a.source = b.source) : Printer.words a = Printer.words b := by
  obtain ⟨ts, hta, hwa⟩ := lex_source ha.wellFormed (ha.not_glued rfl)
  obtain ⟨us, htb, hwb⟩ := lex_source hb.wellFormed (hb.not_glued rfl)
  rw [h, htb] at hta
  obtain rfl := Except.ok.inj hta
  exact List.append_cancel_right (hwa.symm.trans hwb)

def readsOne (text : String) (p : Expr → Bool) : Bool :=
  match parse "main" text with
  | .ok [e] => p e
  | _ => false

lemma exists_of_readsOne (text : String) (p : Expr → Bool) (h : readsOne text p = true) :
    ∃ e, parse "main" text = .ok [e] ∧ p e = true := by
  unfold readsOne at h
  split at h
  · exact ⟨_, ‹_›, h⟩
  · cases h

/-- Whatever a program holds, its text is read again as one expression. The text of that one is the same
exactly if no import stands anywhere whose address assigns an assignment to a name. -/
theorem parse_source_stable {source text : String} {es : List Expr}
    (h : parse source text = .ok es) {e : Expr} (he : e ∈ es) (name : String) :
    ∃ e', parse name e.source = .ok [e'] ∧
      (e'.source = e.source ↔ ∀ n, Expr.Within n e → n.isUnstable = false) := by
  have hf := fits_parse h he
  obtain ⟨e', hp, ha⟩ := parse_source hf.wellFormed (hf.not_glued rfl) name
  refine ⟨e', hp, ?_, ?_⟩
  · intro hs
    have hw := words_of_source_eq (fits_parse hp (List.mem_singleton_self e')) hf hs
    have hlen : (Printer.words e.reread).length = (Printer.words e).length := by
      rw [← Expr.length_words_bare e.reread, ← ha, Expr.length_words_bare, hw]
    exact (Expr.length_words_reread hf.wellFormed).2 hlen.ge
  · intro hn
    rw [ha.source_eq]
    rw [← String.toList_inj, Expr.toList_source, Expr.toList_source, Printer.spelling,
      Expr.node_reread hn, Printer.spelling]

theorem import_of_nested_assignment_changes :
    ∃ e, parse "main" "import (a = (b = c))" = .ok [e] ∧
      ∃ e', parse "main" e.source = .ok [e'] ∧ e'.source ≠ e.source := by
  obtain ⟨e, hp, hu⟩ := exists_of_readsOne "import (a = (b = c))" Expr.isUnstable (by decide +kernel)
  obtain ⟨e', hp', hs⟩ := parse_source_stable hp (List.mem_singleton_self e) "main"
  refine ⟨e, hp, e', hp', fun h => ?_⟩
  rw [hs.mp h e .self] at hu
  cases hu

theorem nested_assignment_loses_parentheses :
    ∃ e e', parse "main" "import (a = (b = c))" = .ok [e] ∧ parse "main" e.source = .ok [e'] ∧
      e.source = "import a = (b = c)" ∧ e'.source = "import a = b = c" := by
  obtain ⟨e, hp, ht⟩ := exists_of_readsOne "import (a = (b = c))"
    (fun e => e.source == "import a = (b = c)" &&
      readsOne e.source fun e' => e'.source == "import a = b = c") (by decide +kernel)
  rw [Bool.and_eq_true, beq_iff_eq] at ht
  obtain ⟨e', hp', hs'⟩ := exists_of_readsOne e.source _ ht.2
  exact ⟨e, e', hp, hp', ht.1, beq_iff_eq.mp hs'⟩

lemma Expr.isGlued_bare (e : Expr) : e.bare.isGlued = e.isGlued := by
  induction e using children_induction with
  | step e ih =>
    cases e with
    | call loc callee positional named =>
      simpa [isGlued] using ih callee (by simp [children])
    | binary loc op left right =>
      cases op with
      | subscript => simpa [isGlued] using ih left (by simp [children])
      | _ => rfl
    | _ => simp [isGlued]

/-- Whatever stands anywhere in a program, its text is read as one expression with the same tree exactly
if no import with an assignment to a name for its address stands in it, and it does not begin with a name
that is dice when it stands alone. -/
theorem parse_source_alike {source text : String} {es : List Expr}
    (h : parse source text = .ok es) {e : Expr} (he : e ∈ es) {n : Expr} (hn : n.Within e)
    (name : String) :
    (∃ n', parse name n.source = .ok [n'] ∧ n'.Alike n) ↔
      (∀ k, Expr.Within k n → k.isMisread = false) ∧ n.isGlued = false := by
  have hwf : n.WellFormed := (fits_parse h he).wellFormed.within hn
  constructor
  · rintro ⟨n', hp, ha⟩
    have hg : n.isGlued = false := by
      rw [← n.isGlued_bare, ← ha, n'.isGlued_bare]
      exact (fits_parse hp (List.mem_singleton_self n')).not_glued rfl
    obtain ⟨n'', hp', ha'⟩ := parse_source hwf hg name
    obtain rfl : n' = n'' := by
      rw [hp] at hp'
      simpa using hp'
    exact ⟨Expr.alike_reread_iff.mp (ha'.symm.trans ha), hg⟩
  · rintro ⟨hm, hg⟩
    obtain ⟨n', hp, ha⟩ := parse_source hwf hg name
    exact ⟨n', hp, ha.trans (Expr.alike_reread_iff.mpr hm)⟩

theorem misread_import_and_glued_name :
    (∃ e, parse "main" "import (a = b)" = .ok [e] ∧
      ¬ ∃ e', parse "main" e.source = .ok [e'] ∧ e'.Alike e) ∧
    ∃ e n, parse "main" "dXd6" = .ok [e] ∧ n.Within e ∧
      ¬ ∃ n', parse "main" n.source = .ok [n'] ∧ n'.Alike n := by
  constructor
  · obtain ⟨e, hp, hm⟩ := exists_of_readsOne "import (a = b)" Expr.isMisread (by decide +kernel)
    refine ⟨e, hp, fun h => ?_⟩
    have hall := (parse_source_alike hp (List.mem_singleton_self e) .self "main").mp h
    rw [hall.1 e .self] at hm
    cases hm
  · obtain ⟨e, hp, hg⟩ := exists_of_readsOne "dXd6" (fun e => e.children.any Expr.isGlued)
      (by decide +kernel)
    obtain ⟨n, hn, hg⟩ := List.any_eq_true.mp hg
    refine ⟨e, n, hp, .inside hn .self, fun h => ?_⟩
    have hall := (parse_source_alike hp (List.mem_singleton_self e) (.inside hn .self) "main").mp h
    rw [hall.2] at hg
    cases hg

def importSpace? : Expr → Option (Option String)
  | .importing _ space _ => some space
  | _ => none

theorem import_of_assignment_gains_namespace :
    ∃ e e', parse "main" "import (a = b)" = .ok [e] ∧ parse "main" e.source = .ok [e'] ∧
      importSpace? e = some none ∧ importSpace? e' = some (some "a") := by
  obtain ⟨e, hp, ht⟩ := exists_of_readsOne "import (a = b)"
    (fun e => importSpace? e == some none &&
      readsOne e.source fun e' => importSpace? e' == some (some "a")) (by decide +kernel)
  rw [Bool.and_eq_true, beq_iff_eq] at ht
  obtain ⟨e', hp', hs'⟩ := exists_of_readsOne e.source _ ht.2
  exact ⟨e, e', hp, hp', ht.1, beq_iff_eq.mp hs'⟩

end DiceLang

import DiceLang.Proofs.Expr.Fits
import DiceLang.Proofs.Parser.Grammar

/-! Every expression of a program is well formed: clean words are read to what fits their place, and they
leave clean words behind. -/

namespace DiceLang

lemma Expr.fits_form {e : Expr} (hform : e.IsForm) (hnames : ∀ n ∈ e.names, Printer.isPlainName n = true)
    (hparts : ∀ x ∈ e.spots, x.2.Fits false) : e.Fits false := by
  cases e with
  | scalar loc v =>
    refine fits_scalar loc ?_
    cases v with
    | number n => exact absurd rfl (hform n)
    | _ => trivial
  | list loc items =>
    simp only [spots, List.forall_mem_map] at hparts
    exact fits_list hparts
  | map loc entries =>
    simp only [spots, List.forall_mem_map] at hparts
    exact fits_map hparts
  | lambda loc params body =>
    simp only [spots, List.forall_mem_append, List.forall_mem_map, List.forall_mem_singleton] at hparts
    refine fits_lambda (fun x hx => ⟨hnames _ (List.mem_map_of_mem hx), fun e he => ?_⟩) hparts.2
    exact hparts.1 e (List.mem_filterMap.mpr ⟨x, hx, he⟩)
  | unary loc op operand => exact fits_unary hform.1 (hparts _ List.mem_cons_self) (by simp)
  | binary loc op left right =>
    simp only [spots, List.forall_mem_cons] at hparts
    exact fits_binary hparts.1 hparts.2.1 (by simp)
  | forEach loc index item out container condition =>
    simp only [names, List.forall_mem_append, Option.mem_toList, List.forall_mem_singleton] at hnames
    simp only [spots, List.forall_mem_cons, List.forall_mem_map, Option.mem_toList] at hparts
    exact fits_forEach hnames.1 hnames.2 hparts.1 hparts.2.1 hparts.2.2
  | repeating loc form body condition limit =>
    cases form with
    | once =>
      simp only [spots, List.forall_mem_cons] at hparts
      obtain ⟨loc', rfl⟩ := hform rfl
      refine fits_repeating hparts.1 hparts.2.1 ?_ hform
      rintro e ⟨⟩
      exact fits_scalar loc' (by simp [Regular])
    | before =>
      simp only [spots, List.forall_mem_cons, List.forall_mem_map, Option.mem_toList] at hparts
      exact fits_repeating hparts.2.1 hparts.1 hparts.2.2 hform
    | after =>
      simp only [spots, List.forall_mem_cons, List.forall_mem_map, Option.mem_toList] at hparts
      exact fits_repeating hparts.1 hparts.2.1 hparts.2.2 hform
  | conditional loc condition whenTrue whenFalse =>
    simp only [spots, List.forall_mem_cons] at hparts
    exact fits_conditional hparts.1 hparts.2.1 hparts.2.2.1
  | output loc mode e type name =>
    simp only [spots, List.forall_mem_cons, List.forall_mem_map, Option.mem_toList] at hparts
    exact fits_output hparts.1 fun s hs => ⟨hparts.2 s hs, hform s hs⟩
  | importing loc space address =>
    simp only [names, Option.mem_toList] at hnames
    exact fits_importing hnames (hparts _ List.mem_cons_self)
  | _ => cases hform

namespace Parser

open Lexer (clean fits)

def FitsBehind (s : List Lexeme) (e : Expr) : Prop :=
  ∀ b rest, clean b (s ++ rest) = true → e.Fits b ∧ clean false rest = true

def FitsHere (_ : Bool) (s : List Lexeme) (e : Expr) : Prop :=
  ∀ rest, clean false (s ++ rest) = true → e.Fits false ∧ clean false rest = true

lemma clean_of_isFrame {b : Bool} {w : Lexeme} {s : List Lexeme} (hw : isFrame w = true)
    (h : clean b (w :: s) = true) : clean false s = true := by
  have hd : (w == .keyword .d) = false := by
    rw [beq_eq_false_iff_ne]
    rintro rfl
    cases hw
  rw [clean, hd, Bool.and_eq_true] at h
  exact h.2

lemma Parts.fit {s : List Lexeme} {ns : List String} {ps : List (Bool × Expr)}
    (h : Parts FitsHere s ns ps) {rest : List Lexeme} (hc : clean false (s ++ rest) = true) :
    (∀ n ∈ ns, Printer.isPlainName n = true) ∧ (∀ x ∈ ps, x.2.Fits false) ∧ clean false rest = true := by
  induction h with
  | nil => exact ⟨List.forall_mem_nil _, List.forall_mem_nil _, hc⟩
  | word hw _ ih => exact ih (clean_of_isFrame hw hc)
  | name n _ ih =>
    obtain ⟨hns, hps, hrest⟩ := ih (clean_of_isFrame (w := .name n) rfl hc)
    have hn : Printer.isPlainName n = true := by
      rw [List.cons_append, clean, Bool.and_eq_true] at hc
      simpa [fits] using hc.1
    exact ⟨List.forall_mem_cons.mpr ⟨hn, hns⟩, hps, hrest⟩
  | part he _ ih =>
    rw [List.append_assoc] at hc
    obtain ⟨he, hc⟩ := he _ hc
    obtain ⟨hns, hps, hrest⟩ := ih hc
    exact ⟨hns, List.forall_mem_cons.mpr ⟨he, hps⟩, hrest⟩
  | itself loc hn _ ih =>
    obtain ⟨hns, hps, hrest⟩ := ih hc
    exact ⟨hns, List.forall_mem_cons.mpr ⟨Expr.fits_var (by simp [fits, hns _ hn]), hps⟩, hrest⟩

lemma Parts.fit_form {s : List Lexeme} {ns : List String} {e : Expr} (h : Parts FitsHere s ns e.spots)
    (hnames : e.names ⊆ ns) (hform : e.IsForm) : FitsHere false s e := by
  intro rest hc
  obtain ⟨hns, hps, hrest⟩ := h.fit hc
  exact ⟨Expr.fits_form hform (fun n hn => hns n (hnames hn)) hps, hrest⟩

lemma fits_literal {b : Bool} {loc : Location} {fs : List Fragment} (h : Lexer.tidy fs = true) :
    (literal loc fs).Fits b := by
  unfold literal
  split
  · exact Expr.fits_scalar loc trivial
  · exact Expr.fits_of ⟨h, ‹_›⟩ (by simp [Expr.children]) rfl

lemma scalar?_number {l : Lexeme} {n : Int64} (h : scalar? l = some (.number n)) :
    l = .number n := by
  cases l with
  | number m =>
    cases h
    rfl
  | keyword k => cases k <;> cases h
  | _ => cases h

lemma fits_atom? {b : Bool} {loc : Location} {l : Lexeme} {e : Expr} (hl : fits b l = true)
    (h : atom? loc l = some e) : e.Fits b := by
  unfold atom? at h
  split at h
  · obtain rfl := Option.some.inj h
    exact Expr.fits_var hl
  · obtain rfl := Option.some.inj h
    exact fits_literal hl
  · cases hv : scalar? l with
    | some v =>
      rw [hv] at h
      obtain rfl := Option.some.inj h
      refine Expr.fits_scalar loc ?_
      cases v with
      | number n =>
        obtain rfl := scalar?_number hv
        simpa [fits, Expr.Regular] using hl
      | _ => trivial
    | none =>
      rw [hv] at h
      obtain ⟨which, _, rfl⟩ := Option.map_eq_some_iff.mp h
      exact Expr.fits_of trivial (by simp [Expr.children]) rfl

lemma grammar_fits : Grammar FitsBehind FitsHere where
  atom {loc l e} he b rest hc := by
    have hd : (l == .keyword .d) = false := by
      rw [beq_eq_false_iff_ne]
      rintro rfl
      cases he
    rw [List.singleton_append, clean, hd, Bool.and_eq_true] at hc
    exact ⟨fits_atom? hc.1 he, hc.2⟩
  parens he b rest hc := by
    rw [List.cons_append, List.append_assoc] at hc
    obtain ⟨he, hc⟩ := he _ (clean_of_isFrame rfl hc)
    exact ⟨he.mono b, clean_of_isFrame rfl hc⟩
  opened hw hparts hnames hform b rest hc := by
    obtain ⟨he, hrest⟩ := hparts.fit_form hnames hform rest (clean_of_isFrame hw hc)
    exact ⟨he.mono b, hrest⟩
  call he hparts hnames b rest hc := by
    rw [List.append_assoc] at hc
    obtain ⟨he, hc⟩ := he b _ hc
    obtain ⟨hns, hps, hrest⟩ := hparts.fit hc
    obtain ⟨hp, hn⟩ := List.forall_mem_append.mp (List.forall_mem_map.mp hps)
    have hn' := List.forall_mem_map.mp hn
    exact ⟨Expr.fits_call he hp fun x hx => ⟨hns _ (hnames (List.mem_map_of_mem hx)), hn' x hx⟩, hrest⟩
  subscript he hparts b rest hc := by
    rw [List.append_assoc] at hc
    obtain ⟨he, hc⟩ := he b _ hc
    obtain ⟨-, hps, hrest⟩ := hparts.fit hc
    exact ⟨Expr.fits_subscript he (hps _ List.mem_cons_self), hrest⟩
  tight he := he false
  die he rest hc := by
    obtain ⟨he, hrest⟩ := he true rest (Bool.and_eq_true_iff.mp hc).2
    exact ⟨Expr.fits_unary rfl he fun _ => rfl, hrest⟩
  dice hl hr rest hc := by
    rw [List.append_assoc] at hc
    obtain ⟨hl, hc⟩ := hl _ hc
    obtain ⟨hr, hrest⟩ := hr true rest (Bool.and_eq_true_iff.mp hc).2
    exact ⟨Expr.fits_binary hl hr fun _ => rfl, hrest⟩
  loose he := he
  minus he rest hc := by
    obtain ⟨he, hrest⟩ := he rest (clean_of_isFrame (w := .mark .minus) rfl hc)
    exact ⟨Expr.fits_unary rfl he (by simp), hrest⟩
  form hparts hnames hform := hparts.fit_form hnames hform
  ended he rest hc := by
    rw [List.append_assoc] at hc
    obtain ⟨he, hc⟩ := he _ hc
    exact ⟨he, clean_of_isFrame rfl hc⟩

lemma Text.fit {s : List Lexeme} {es : List Expr} (h : Text (FitsHere false) s es) {rest : List Lexeme}
    (hc : clean false (s ++ rest) = true) : ∀ e ∈ es, e.Fits false := by
  induction h with
  | nil => exact List.forall_mem_nil _
  | skip _ ih => exact ih (clean_of_isFrame rfl hc)
  | cons he _ ih =>
    rw [List.append_assoc] at hc
    obtain ⟨he, hc⟩ := he _ hc
    exact List.forall_mem_cons.mpr ⟨he, ih hc⟩

end Parser

lemma fits_parse {source text : String} {es : List Expr} (h : parse source text = .ok es) {e : Expr}
    (he : e ∈ es) : e.Fits false := by
  unfold parse at h
  cases hlex : lex text with
  | error _ =>
    rw [hlex] at h
    cases h
  | ok ts =>
    rw [hlex] at h
    obtain ⟨s, rest, hs, htext⟩ := Parser.text_of_program Parser.grammar_fits h
    have hc := lex_clean hlex
    rw [hs] at hc
    exact htext.fit hc e he

end DiceLang

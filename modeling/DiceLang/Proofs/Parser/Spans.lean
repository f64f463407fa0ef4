import DiceLang.Proofs.Lists
import DiceLang.Proofs.Parser.Sections
import DiceLang.Proofs.Token.Tiling

/-! The places of expressions and of errors. Expressions of a program stand one behind another, and inside
an expression every node covers what stands inside it. -/

namespace DiceLang.Parser

section Parts

variable {body : List Token} {eof : Token} {part : List Token × Token}

lemma of_mem_parts (h : part ∈ parts body eof) : part.1.Sublist body ∧ part.2 ∈ body ++ [eof] := by
  induction body using section_induction with
  | nil => cases h
  | separator t ts ht ih =>
    rw [parts_separator ht] at h
    obtain ⟨hsub, hmem⟩ := ih h
    exact ⟨hsub.cons t, List.mem_cons_of_mem t hmem⟩
  | run u ts hne hu hts ih =>
    rw [parts_run hne hu hts, List.mem_cons] at h
    rcases h with rfl | h
    · refine ⟨List.sublist_append_left u ts, ?_⟩
      rw [List.append_assoc, List.mem_append]
      refine .inr ?_
      cases ts with
      | nil => exact List.mem_singleton_self eof
      | cons t ts => exact List.mem_cons_self
    · obtain ⟨hsub, hmem⟩ := ih h
      rw [List.append_assoc]
      exact ⟨hsub.trans (List.sublist_append_right u ts), List.mem_append_right u hmem⟩

def Before (a b : Token) : Prop := a.span.last.offset ≤ b.span.first.offset

lemma pairwise_parts (h : body.Pairwise Before) :
    (parts body eof).Pairwise fun a b => ∀ t ∈ a.1, ∀ t' ∈ b.1, Before t t' := by
  induction body using section_induction with
  | nil => exact .nil
  | separator t ts ht ih =>
    rw [parts_separator ht]
    exact ih (List.pairwise_cons.mp h).2
  | run u ts hne hu hts ih =>
    obtain ⟨-, hbehind, hcross⟩ := List.pairwise_append.mp h
    rw [parts_run hne hu hts]
    refine .cons (fun part hpart t ht t' ht' => ?_) (ih hbehind)
    exact hcross t ht t' ((of_mem_parts hpart).1.mem ht')

end Parts

lemma ordered_of_pairwise {s : Section} (hfilled : ∀ t ∈ s.tokens, t.span.first.offset < t.span.last.offset)
    (h : s.tokens.Pairwise Before) : s.Ordered := by
  constructor
  · intro k hk
    exact hfilled _ (s.token_mem hk)
  · intro i j hij hj
    have hi : i < s.tokens.length := hij.trans hj
    rw [Section.span, Section.span, List.getD_eq_getElem _ _ hi, List.getD_eq_getElem _ _ hj]
    exact List.pairwise_iff_getElem.mp h i j hi hj hij

def LiesIn (source : String) (part : List Token × Token) (e : Expr) : Prop :=
  e.Nested source ∧ ∃ t ∈ part.1, ∃ t' ∈ part.1,
    t.span.first.offset ≤ e.location.span.first.offset ∧
      e.location.span.last.offset ≤ t'.span.last.offset

section Outcomes

variable {source : String} {part : List Token × Token}

lemma liesIn_of_yields {e : Expr} (h : Yields source part (.ok e))
    (hfilled : ∀ t ∈ part.1, t.span.first.offset < t.span.last.offset) (hp : part.1.Pairwise Before) :
    LiesIn source part e := by
  obtain ⟨s, x, rfl, htokens, -, ho⟩ := h
  rw [← htokens] at hfilled hp
  rcases statement_cursor s x with ⟨e', hrun, hsize, -, hread⟩ | ⟨j, -, fault, hrun⟩
  · rw [hrun] at ho
    cases ho
    obtain ⟨hcovers, hnested⟩ := hread (ordered_of_pairwise hfilled hp)
    rw [LiesIn, ← htokens]
    exact ⟨hnested, _, s.token_mem hsize, _, s.token_mem (Nat.sub_one_lt_of_lt hsize), hcovers⟩
  · rw [hrun] at ho
    cases ho

lemma place_of_yields {err : SyntaxError} (h : Yields source part (.error err)) :
    err.location.source = source ∧ err.location.span ∈ (part.1 ++ [part.2]).map Token.span := by
  obtain ⟨s, x, rfl, htokens, hstop, ho⟩ := h
  rcases statement_cursor s x with ⟨e, hrun, -⟩ | ⟨j, hj, fault, hrun⟩
  · rw [hrun] at ho
    cases ho
  · rw [hrun] at ho
    cases ho
    rw [← htokens, ← hstop]
    exact ⟨rfl, s.span_cursor_mem x hj⟩

lemma pairwise_of_liesIn {ps : List (List Token × Token)} {es : List Expr}
    (h : List.Forall₂ (LiesIn source) ps es)
    (hp : ps.Pairwise fun a b => ∀ t ∈ a.1, ∀ t' ∈ b.1, Before t t') :
    es.Pairwise fun a b => a.location.span.last.offset ≤ b.location.span.first.offset := by
  induction h with
  | nil => exact .nil
  | @cons part e ps es he hes ih =>
    obtain ⟨hpart, hps⟩ := List.pairwise_cons.mp hp
    refine .cons (fun e' he' => ?_) (ih hps)
    obtain ⟨part', hmem, he'⟩ := exists_of_forall₂ hes he'
    obtain ⟨-, -, -, t, ht, -, hlast⟩ := he
    obtain ⟨-, t', ht', -, -, hfirst, -⟩ := he'
    exact hlast.trans ((hpart part' hmem t ht t' ht').trans hfirst)

end Outcomes

section Program

variable {source : String} {body : List Token} {eof : Token}
  (hbody : ∀ t ∈ body, t.lexeme ≠ .eof ∧ t.span.first.offset < t.span.last.offset)
  (heof : eof.lexeme = .eof)

include hbody heof

variable (source) in
lemma sections_yield : ∃ outcomes,
    sections ((body ++ [eof]).length + 1) ⟨source, none, body ++ [eof]⟩ = outcomes ∧
      List.Forall₂ (Yields source) (parts body eof) outcomes := by
  obtain ⟨outcomes, last, -, hfuel, hyields⟩ :=
    rounds_of_closed source heof body (fun t ht => (hbody t ht).1) none
  exact ⟨outcomes, hfuel _ (by rw [List.length_append]; omega), hyields⟩

lemma program_liesIn (hp : body.Pairwise Before) {es : List Expr}
    (h : program source (body ++ [eof]) = .ok es) : List.Forall₂ (LiesIn source) (parts body eof) es := by
  obtain ⟨outcomes, hsections, hyields⟩ := sections_yield source hbody heof
  obtain ⟨hgood, rfl⟩ := of_program_ok hsections h
  have hsub : ∀ part ∈ parts body eof, part.1.Sublist body := fun part hpart => (of_mem_parts hpart).1
  refine ((List.forall₂_and_left _ _).mpr ⟨hsub, forall₂_expr? hyields hgood⟩).imp ?_
  rintro part e ⟨hsub, hyield⟩
  exact liesIn_of_yields hyield (fun t ht => (hbody t (hsub.mem ht)).2) (hp.sublist hsub)

lemma program_error_place {errors : List SyntaxError} (h : program source (body ++ [eof]) = .error errors)
    {err : SyntaxError} (herr : err ∈ errors) :
    err.location.source = source ∧ err.location.span ∈ (body ++ [eof]).map Token.span := by
  obtain ⟨outcomes, hsections, hyields⟩ := sections_yield source hbody heof
  rw [of_program_error hsections h] at herr
  obtain ⟨o, ho, hoe⟩ := List.mem_filterMap.mp herr
  obtain ⟨part, hpart, hyield⟩ := exists_of_forall₂ hyields ho
  cases o with
  | ok e => cases hoe
  | error err =>
    cases hoe
    obtain ⟨hsub, hstop⟩ := of_mem_parts hpart
    obtain ⟨hsource, hspan⟩ := place_of_yields hyield
    refine ⟨hsource, List.map_subset _ ?_ hspan⟩
    intro t ht
    rcases List.mem_append.mp ht with ht | ht
    · exact List.mem_append_left _ (hsub.mem ht)
    · rw [List.mem_singleton.mp ht]
      exact hstop

end Program

lemma nested_of_program {source text : String} {tokens : List Token} (hlex : lex text = .ok tokens)
    {es : List Expr} (hes : program source tokens = .ok es) {e : Expr} (he : e ∈ es) :
    e.Nested source ∧ e.location.span.last.offset ≤ text.utf8ByteSize := by
  have htiled := Lexer.tiled_of_lex hlex
  obtain ⟨body, rfl, hbody⟩ := htiled.ends
  have hlies := program_liesIn hbody rfl (List.pairwise_append.mp htiled.in_order).1 hes
  obtain ⟨part, hpart, hnested, -, -, t, ht, -, hlast⟩ := exists_of_forall₂ hlies he
  have hmem : t ∈ body := (of_mem_parts hpart).1.mem ht
  exact ⟨hnested, hlast.trans (Lexer.locates_of_lex hlex (List.mem_append_left _ hmem)).2.offset_le⟩

end DiceLang.Parser

namespace DiceLang

/-- Every node of a program covers some text of the program and all that stands inside the node, and the
expressions follow each other. Every error lies in the text. -/
theorem spans_well_nested (source text : String) :
    (∀ es, parse source text = .ok es →
      (∀ e ∈ es, ∀ n : Expr, n.Within e → n.location.source = source ∧
        n.location.span.first.offset < n.location.span.last.offset ∧
        n.location.span.last.offset ≤ text.utf8ByteSize ∧
        ∀ m : Expr, m.Within n → n.location.span.Covers m.location.span) ∧
      es.Pairwise fun a b => a.location.span.last.offset ≤ b.location.span.first.offset) ∧
    ∀ errors, parse source text = .error errors → ∀ err ∈ errors, err.location.source = source ∧
      err.location.span.first.offset ≤ err.location.span.last.offset ∧
      err.location.span.last.offset ≤ text.utf8ByteSize := by
  unfold parse
  cases hlex : lex text with
  | error lexical =>
    refine ⟨nofun, ?_⟩
    rintro _ ⟨⟩ err herr
    obtain ⟨e, he, rfl⟩ := List.mem_map.mp herr
    obtain ⟨-, hlast, hle⟩ := Lexer.locates_of_lex_error hlex he
    exact ⟨rfl, hle, hlast.offset_le⟩
  | ok tokens =>
    have hplace {t : Token} (ht : t ∈ tokens) : t.span.last.offset ≤ text.utf8ByteSize :=
      (Lexer.locates_of_lex hlex ht).2.offset_le
    have htiled := Lexer.tiled_of_lex hlex
    obtain ⟨body, rfl, hbody⟩ := htiled.ends
    have horder := htiled.in_order
    refine ⟨fun es hes => ?_, fun errors herrors err herr => ?_⟩
    · have hp : body.Pairwise Parser.Before := (List.pairwise_append.mp horder).1
      have hlies := Parser.program_liesIn hbody rfl hp hes
      refine ⟨fun e he n hn => ?_, Parser.pairwise_of_liesIn hlies (Parser.pairwise_parts hp)⟩
      obtain ⟨hnested, hlast⟩ := Parser.nested_of_program hlex hes he
      obtain ⟨hsource, hfilled, -⟩ := hnested n hn
      exact ⟨hsource, hfilled, (hnested.covers hn).2.trans hlast, fun m hm => (hnested.within hn).covers hm⟩
    · obtain ⟨hsource, hspan⟩ := Parser.program_error_place hbody rfl herrors herr
      obtain ⟨t, ht, hspan⟩ := List.mem_map.mp hspan
      rw [← hspan]
      refine ⟨hsource, ?_, hplace ht⟩
      rcases List.mem_append.mp ht with ht | ht
      · exact (hbody t ht).2.le
      · rw [List.mem_singleton.mp ht]

theorem unwritten_nodes_nested : ∃ es,
    parse "t" "fun() \x7b\x7d --- repeat 1 if 2 --- for x in [1]" = .ok es ∧ es.length = 3 ∧
      (∀ e ∈ es, ∀ m : Expr, m.Within e → e.location.span.Covers m.location.span) ∧
      es.Pairwise fun a b => a.location.span.last.offset ≤ b.location.span.first.offset := by
  have hread : (parse "t" "fun() \x7b\x7d --- repeat 1 if 2 --- for x in [1]").toOption.map List.length =
      some 3 := by decide +kernel
  cases h : parse "t" "fun() \x7b\x7d --- repeat 1 if 2 --- for x in [1]" with
  | error errors =>
    rw [h] at hread
    cases hread
  | ok es =>
    rw [h] at hread
    obtain ⟨hnested, horder⟩ := (spans_well_nested _ _).1 es h
    exact ⟨es, rfl, Option.some.inj hread, fun e he => (hnested e he e .self).2.2.2, horder⟩

end DiceLang

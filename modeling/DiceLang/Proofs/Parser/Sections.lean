import DiceLang.Proofs.Parser.Parallel

/-! Recovery from errors. A program is read section by section, and each section gives what it gives when
it stands alone. -/

namespace DiceLang.Parser

def isSeparator (t : Token) : Bool := t.lexeme == .mark .separator

lemma isSeparator_iff {t : Token} : isSeparator t = true ↔ t.lexeme = .mark .separator := beq_iff_eq

lemma atEnd_eq_false {t : Token} :
    atEnd t.lexeme = false ↔ t.lexeme ≠ .eof ∧ isSeparator t = false := by
  rw [atEnd, Bool.or_eq_false_iff, beq_eq_false_iff_ne]
  rfl

def parts (body : List Token) (eof : Token) : List (List Token × Token) :=
  ((body.splitOnP isSeparator).zip (body.filter isSeparator ++ [eof])).filter fun part => !part.1.isEmpty

lemma parts_separator {t : Token} (ht : isSeparator t = true) (ts : List Token) (eof : Token) :
    parts (t :: ts) eof = parts ts eof := by
  rw [parts, List.splitOnP_cons_eq_if_modifyHead, if_pos ht, List.filter_cons_of_pos ht]
  rfl

section Run

variable {u : List Token} (hne : u ≠ []) (hu : ∀ t ∈ u, isSeparator t = false)

include hne hu

lemma parts_single (eof : Token) : parts u eof = [(u, eof)] := by
  have hfilter : u.filter isSeparator = [] := List.filter_eq_nil_iff.mpr (by simpa using hu)
  have hkeep : (!u.isEmpty) = true := by simpa using hne
  rw [parts, List.splitOnP_eq_singleton hu, hfilter]
  exact List.filter_cons_of_pos hkeep

lemma parts_run {ts : List Token} (hts : ∀ t ∈ ts.head?, isSeparator t = true) (eof : Token) :
    parts (u ++ ts) eof = (u, ts.headD eof) :: parts ts eof := by
  cases ts with
  | nil =>
    rw [List.append_nil]
    exact parts_single hne hu eof
  | cons t ts =>
    have ht := hts t rfl
    have hfilter : (u ++ t :: ts).filter isSeparator = t :: ts.filter isSeparator := by
      rw [List.filter_append, List.filter_eq_nil_iff.mpr (by simpa using hu), List.nil_append,
        List.filter_cons_of_pos ht]
    have hkeep : (!u.isEmpty) = true := by simpa using hne
    rw [parts_separator ht, parts, List.splitOnP_append_cons_of_forall_mem hu t ht, hfilter]
    exact List.filter_cons_of_pos hkeep

end Run

lemma exists_run (ts : List Token) : ∃ u rest, u ++ rest = ts ∧ (∀ t ∈ u, isSeparator t = false) ∧
    ∀ t ∈ rest.head?, isSeparator t = true := by
  refine ⟨_, _, List.takeWhile_append_dropWhile (p := (!isSeparator ·)), fun t ht => ?_, fun t ht => ?_⟩
  · simpa using List.mem_takeWhile_imp ht
  · have hhead := List.head?_dropWhile_not (!isSeparator ·) ts
    rw [Option.mem_def.mp ht] at hhead
    simpa using hhead

@[elab_as_elim]
lemma section_induction {P : List Token → Prop} (nil : P [])
    (separator : ∀ t ts, isSeparator t = true → P ts → P (t :: ts))
    (run : ∀ u ts, u ≠ [] → (∀ t ∈ u, isSeparator t = false) →
      (∀ t ∈ ts.head?, isSeparator t = true) → P ts → P (u ++ ts)) (ts : List Token) : P ts := by
  induction hn : ts.length using Nat.strong_induction_on generalizing ts with
  | _ n ih =>
    subst hn
    obtain ⟨u, rest, rfl, hu, hrest⟩ := exists_run ts
    cases u with
    | cons t u =>
      refine run _ _ (List.cons_ne_nil t u) hu hrest (ih rest.length ?_ rest rfl)
      rw [List.length_append, List.length_cons]
      omega
    | nil =>
      cases rest with
      | nil => exact nil
      | cons t ts => exact separator t ts (hrest t rfl) (ih ts.length ts.length.lt_succ_self ts rfl)

section Statement

variable (s : Section) (x y : Around)

lemma inStep_statement : InStep s x y statement statement 0 fun j e => j = s.size ∧ s.Reads 0 j e := by
  have hdepth (x : Around) : s.size - 0 < (s.cursor x 0).rest.length + 1 :=
    (s.size_lt_length_rest x 0).trans (Nat.lt_succ_self _)
  have hread : InStep s x y (parseAt ((s.cursor x 0).rest.length + 1) .sequence >>= fun e => do
      if atEnd (← peek) then return e
      fail .trailing) (parseAt ((s.cursor y 0).rest.length + 1) .sequence >>= fun e => do
      if atEnd (← peek) then return e
      fail .trailing) 0 fun j e => j = s.size ∧ s.Reads 0 j e := by
    refine (alike_parseAt .sequence (hdepth x) (hdepth y) 0 le_rfl (Nat.zero_le _)).bind
      fun j e _ hj he => inStep_peek hj fun l l' hmeet => ?_
    cases hmeet with
    | inside hj' =>
      rw [Section.atEnd_lexeme hj']
      exact inStep_fail _ hj
    | finish hsize hl hl' =>
      rw [hl, hl']
      exact inStep_pure hj ⟨hsize, he⟩
  exact hread.behind le_rfl rfl rfl

lemma statement_cursor :
    (∃ e, statement (s.cursor x 0) = .ok e (s.cursor x s.size) ∧ s.Reads 0 s.size e) ∨
      ∃ j ≤ s.size, ∃ fault, statement (s.cursor x 0) =
        .error ⟨fault, ⟨s.source, (s.cursor x j).span⟩⟩ (s.cursor x j) := by
  rcases inStep_statement s x x with ⟨-, -, hrun, -, rfl, hread⟩ | ⟨-, hj, -, hrun, -⟩
  · exact .inl ⟨_, hrun, hread⟩
  · exact .inr ⟨_, hj, _, hrun⟩

variable {s x} in
lemma skipSection_cursor {j : Nat} (hj : j ≤ s.size) {bound : List Token} (hb : s.size - j < bound.length) :
    skipSection bound (s.cursor x j) = s.cursor x s.size := by
  induction bound generalizing j with
  | nil => cases hb
  | cons t bound ih =>
    rw [skipSection]
    rcases hj.lt_or_eq with hj | rfl
    · rw [List.length_cons] at hb
      rw [Section.lexeme_cursor hj, Section.atEnd_lexeme hj, Section.advance_cursor hj]
      exact ih hj (by omega)
    · rw [s.atEnd_cursor_size x]
      rfl

end Statement

/-- The rounds over the sections of a program, with no bound on their number. -/
inductive Rounds : Cursor → List (Except SyntaxError Expr) → Cursor → Prop
  | finish {c : Cursor} : c.lexeme = .eof → Rounds c [] c
  | skip {c d : Cursor} {os : List (Except SyntaxError Expr)} : c.lexeme = .mark .separator →
      Rounds c.advance os d → Rounds c os d
  | read {c c' d : Cursor} {e : Expr} {os : List (Except SyntaxError Expr)} : atEnd c.lexeme = false →
      statement c = .ok e c' → Rounds c' os d → Rounds c (.ok e :: os) d
  | recover {c c' d : Cursor} {err : SyntaxError} {os : List (Except SyntaxError Expr)} :
      atEnd c.lexeme = false → statement c = .error err c' → Rounds (skipSection c'.rest c') os d →
      Rounds c (.error err :: os) d

def outcome : EStateM.Result SyntaxError Cursor Expr → Except SyntaxError Expr
  | .ok e _ => .ok e
  | .error err _ => .error err

def Yields (source : String) (part : List Token × Token) (o : Except SyntaxError Expr) : Prop :=
  ∃ (s : Section) (x : Around), s.source = source ∧ s.tokens = part.1 ∧ x.stop = part.2 ∧
    o = outcome (statement (s.cursor x 0))

section Fuel

variable {fuel : Nat} {c c' : Cursor}

lemma sections_eof (hc : c.lexeme = .eof) : sections (fuel + 1) c = [] := by
  rw [sections, if_pos hc]

lemma sections_separator (hc : c.lexeme = .mark .separator) :
    sections (fuel + 1) c = sections fuel c.advance := by
  rw [sections, if_neg (by rw [hc]; nofun), if_pos hc]

lemma sections_ok {e : Expr} (hc : atEnd c.lexeme = false) (h : statement c = .ok e c') :
    sections (fuel + 1) c = .ok e :: sections fuel c' := by
  simp only [atEnd, Bool.or_eq_false_iff, beq_eq_false_iff_ne] at hc
  rw [sections, if_neg hc.1, if_neg hc.2, h]

lemma sections_error {err : SyntaxError} (hc : atEnd c.lexeme = false) (h : statement c = .error err c') :
    sections (fuel + 1) c = .error err :: sections fuel (skipSection c'.rest c') := by
  simp only [atEnd, Bool.or_eq_false_iff, beq_eq_false_iff_ne] at hc
  rw [sections, if_neg hc.1, if_neg hc.2, h]

end Fuel

lemma exists_section (source : String) {u ts : List Token} {eof : Token} (heof : eof.lexeme = .eof)
    (hopen : ∀ t ∈ u, t.lexeme ≠ .eof) (hu : ∀ t ∈ u, isSeparator t = false)
    (hts : ∀ t ∈ ts.head?, isSeparator t = true) (last : Option Span) :
    ∃ (s : Section) (x : Around), s.source = source ∧ s.tokens = u ∧ x.stop = ts.headD eof ∧
      s.cursor x 0 = ⟨source, last, u ++ ts ++ [eof]⟩ ∧
      ∃ last', s.cursor x s.size = ⟨source, last', ts ++ [eof]⟩ := by
  have hinside : ∀ t ∈ u, atEnd t.lexeme = false := fun t ht =>
    atEnd_eq_false.mpr ⟨hopen t ht, hu t ht⟩
  have hstops : atEnd (ts.headD eof).lexeme = true := by
    cases ts with
    | nil => exact congrArg atEnd heof
    | cons t ts => exact congrArg atEnd (isSeparator_iff.mp (hts t rfl))
  have hbehind : ts.headD eof :: (ts ++ [eof]).tail = ts ++ [eof] := by cases ts <;> rfl
  let s : Section := ⟨source, u, hinside⟩
  let x : Around := ⟨last, ts.headD eof, (ts ++ [eof]).tail, hstops⟩
  refine ⟨s, x, rfl, rfl, rfl, ?_, (s.cursor x s.size).last, ?_⟩
  · rw [List.append_assoc, ← hbehind]
    rfl
  · rw [← hbehind, ← s.rest_cursor_size x]
    rfl

lemma rounds_of_closed (source : String) {eof : Token} (heof : eof.lexeme = .eof) (body : List Token)
    (hbody : ∀ t ∈ body, t.lexeme ≠ .eof) (last : Option Span) :
    ∃ outcomes last', Rounds ⟨source, last, body ++ [eof]⟩ outcomes ⟨source, last', [eof]⟩ ∧
      (∀ fuel, body.length < fuel → sections fuel ⟨source, last, body ++ [eof]⟩ = outcomes) ∧
      List.Forall₂ (Yields source) (parts body eof) outcomes := by
  induction body using section_induction generalizing last with
  | nil =>
    refine ⟨[], last, .finish heof, fun fuel hfuel => ?_, .nil⟩
    obtain ⟨fuel, rfl⟩ := Nat.exists_eq_add_of_le' hfuel
    exact sections_eof heof
  | separator t ts ht ih =>
    have hc : (⟨source, last, t :: ts ++ [eof]⟩ : Cursor).lexeme = .mark .separator :=
      isSeparator_iff.mp ht
    obtain ⟨outcomes, last', hrounds, hfuel, hyields⟩ := ih (List.forall_mem_cons.mp hbody).2 (some t.span)
    refine ⟨outcomes, last', .skip hc hrounds, fun fuel hlt => ?_, ?_⟩
    · obtain ⟨fuel, rfl⟩ := Nat.exists_eq_add_of_le' (Nat.zero_lt_of_lt hlt)
      exact (sections_separator hc).trans (hfuel fuel (Nat.lt_of_succ_lt_succ hlt))
    · rw [parts_separator ht]
      exact hyields
  | run u ts hne hu hts ih =>
    obtain ⟨hbu, hbts⟩ := List.forall_mem_append.mp hbody
    obtain ⟨s, x, hsource, htokens, hstop, hstart, last', hend⟩ :=
      exists_section source heof hbu hu hts last
    have hsize : 0 < s.size := by
      rw [Section.size, htokens]
      exact List.length_pos_iff.mpr hne
    have hopen : atEnd (s.cursor x 0).lexeme = false := by
      rw [Section.lexeme_cursor hsize]
      exact Section.atEnd_lexeme hsize
    have hyield : Yields source (u, ts.headD eof) (outcome (statement (s.cursor x 0))) :=
      ⟨s, x, hsource, htokens, hstop, rfl⟩
    obtain ⟨outcomes, finish, hrounds, hfuel, hyields⟩ := ih hbts last'
    rw [← hend] at hrounds hfuel
    rw [← hstart, parts_run hne hu hts]
    have hlength : (u ++ ts).length = s.size + ts.length := by
      rw [List.length_append, Section.size, htokens]
    rcases statement_cursor s x with ⟨e, hrun, -⟩ | ⟨j, hj, fault, hrun⟩
    · rw [hrun] at hyield
      refine ⟨_, finish, .read hopen hrun hrounds, fun fuel hlt => ?_, .cons hyield hyields⟩
      obtain ⟨fuel, rfl⟩ := Nat.exists_eq_add_of_le' (Nat.zero_lt_of_lt hlt)
      rw [Nat.succ_eq_add_one, sections_ok hopen hrun, hfuel fuel (by omega)]
    · rw [hrun] at hyield
      have hskip := skipSection_cursor (x := x) hj (s.size_lt_length_rest x j)
      refine ⟨_, finish, .recover hopen hrun (hskip ▸ hrounds), fun fuel hlt => ?_, .cons hyield hyields⟩
      obtain ⟨fuel, rfl⟩ := Nat.exists_eq_add_of_le' (Nat.zero_lt_of_lt hlt)
      rw [Nat.succ_eq_add_one, sections_error hopen hrun, hskip, hfuel fuel (by omega)]

section Program

variable {source : String} {tokens : List Token} {os : List (Except SyntaxError Expr)}
  (h : sections (tokens.length + 1) ⟨source, none, tokens⟩ = os)

include h

lemma program_eq : program source tokens = if (os.filterMap error?).isEmpty then .ok (os.filterMap expr?)
    else .error (os.filterMap error?) := by
  rw [← h]
  rfl

lemma of_program_ok {es : List Expr} (hes : program source tokens = .ok es) :
    os.filterMap error? = [] ∧ es = os.filterMap expr? := by
  rw [program_eq h] at hes
  split at hes
  next hgood =>
    cases hes
    exact ⟨List.isEmpty_iff.mp hgood, rfl⟩
  · cases hes

lemma of_program_error {errors : List SyntaxError} (herr : program source tokens = .error errors) :
    errors = os.filterMap error? := by
  rw [program_eq h] at herr
  split at herr <;> cases herr
  rfl

end Program

/-- The section fails alone, and the error where it stands is the one that it gives alone, but for what is
said about its end. -/
def Blames (source : String) (stop : Token) (part : List Token × Token) (err : SyntaxError) : Prop :=
  ∃ err', program source (part.1 ++ [stop]) = .error [err'] ∧ err.location.source = source ∧
    err.location.span ∈ (part.1 ++ [part.2]).map Token.span ∧
    (err = err' ∨ err.location.span = part.2.span ∧ err'.location.span = stop.span ∧
      (part.2.lexeme = .eof → err.fault = err'.fault))

def Settles (source : String) (stop : Token) (part : List Token × Token) :
    Except SyntaxError Expr → Prop
  | .ok e => program source (part.1 ++ [stop]) = .ok [e]
  | .error err => Blames source stop part err

section Alone

variable {source : String} {stop : Token} {part : List Token × Token}

lemma program_alone (hstop : stop.lexeme = .eof) {o : Except SyntaxError Expr} (hne : part.1 ≠ [])
    (h : Yields source part o) : ∃ o', Yields source (part.1, stop) o' ∧
      program source (part.1 ++ [stop]) = match o' with
        | .ok e => .ok [e]
        | .error err => .error [err] := by
  obtain ⟨s, x, -, htokens, -⟩ := h
  have hopen : ∀ t ∈ part.1, t.lexeme ≠ .eof ∧ isSeparator t = false := fun t ht =>
    atEnd_eq_false.mp (s.inside t (htokens ▸ ht))
  obtain ⟨outcomes, last, -, hfuel, hyields⟩ :=
    rounds_of_closed source hstop part.1 (fun t ht => (hopen t ht).1) none
  rw [parts_single hne (fun t ht => (hopen t ht).2)] at hyields
  cases hyields with
  | @cons _ o' _ _ hyield hnil =>
    cases hnil
    refine ⟨o', hyield, ?_⟩
    rw [program_eq (hfuel _ (by rw [List.length_append]; omega))]
    cases o' <;> rfl

lemma settles_of_yields (hstop : stop.lexeme = .eof) {o : Except SyntaxError Expr} (hne : part.1 ≠ [])
    (h : Yields source part o) : Settles source stop part o := by
  obtain ⟨o', hyield, halone⟩ := program_alone hstop hne h
  obtain ⟨⟨_, _, hinside⟩, x, rfl, rfl, hx, rfl⟩ := h
  obtain ⟨⟨_, _, _⟩, y, rfl, rfl, hy, rfl⟩ := hyield
  set s : Section := ⟨_, _, hinside⟩
  rcases inStep_statement s x y with ⟨-, -, hrun, hrun', -⟩ | ⟨-, hj, hfault, hrun, hrun'⟩
  · rw [hrun'] at halone
    rw [hrun]
    exact halone
  · rw [hrun'] at halone
    rw [hrun]
    refine ⟨_, halone, rfl, hx ▸ s.span_cursor_mem x hj, ?_⟩
    rcases hj.lt_or_eq with hj | rfl
    · refine .inl ?_
      rw [hfault (.inl hj), Section.span_cursor hj, Section.span_cursor hj]
    · have hspan := s.span_cursor_size x
      have hspan' := s.span_cursor_size y
      rw [hx] at hspan
      rw [hy] at hspan'
      refine .inr ⟨hspan, hspan', fun heof => hfault (.inr ?_)⟩
      rw [hx, hy, heof, hstop]

end Alone

section Outcomes

variable {source : String} {stop : Token} {ps : List (List Token × Token)}
  {os : List (Except SyntaxError Expr)}

lemma forall₂_settles (hstop : stop.lexeme = .eof) (hne : ∀ part ∈ ps, part.1 ≠ [])
    (h : List.Forall₂ (Yields source) ps os) : List.Forall₂ (Settles source stop) ps os :=
  ((List.forall₂_and_left ps os).mpr ⟨hne, h⟩).imp fun _ _ h => settles_of_yields hstop h.1 h.2

lemma forall₂_expr? {R : List Token × Token → Except SyntaxError Expr → Prop} (h : List.Forall₂ R ps os)
    (hgood : os.filterMap error? = []) :
    List.Forall₂ (fun part e => R part (.ok e)) ps (os.filterMap expr?) := by
  induction h with
  | nil => exact .nil
  | @cons part o ps os ho _ ih =>
    cases o with
    | ok e => exact .cons ho (ih hgood)
    | error err => cases hgood

lemma forall₂_error? (h : List.Forall₂ (Settles source stop) ps os) :
    List.Forall₂ (Blames source stop)
      (ps.filter fun part => !(program source (part.1 ++ [stop])).isOk) (os.filterMap error?) := by
  induction h with
  | nil => exact .nil
  | @cons part o ps os ho _ ih =>
    cases o with
    | ok e =>
      have hok : program source (part.1 ++ [stop]) = .ok [e] := ho
      rw [List.filter_cons_of_neg (by rw [hok]; nofun)]
      exact ih
    | error err =>
      obtain ⟨err', halone, -⟩ := id (ho : Blames source stop part err)
      rw [List.filter_cons_of_pos (by rw [halone]; rfl)]
      exact .cons ho ih

end Outcomes

lemma parseAt_deep {source : String} {eof : Token} (heof : eof.lexeme = .eof) {body : List Token}
    (hbody : ∀ t ∈ body, t.lexeme ≠ .eof) (last : Option Span) (level : Level) {depth depth' : Nat}
    (hd : body.length < depth) (hd' : body.length < depth') :
    parseAt depth level ⟨source, last, body ++ [eof]⟩ =
      parseAt depth' level ⟨source, last, body ++ [eof]⟩ := by
  obtain ⟨u, ts, rfl, hu, hts⟩ := exists_run body
  obtain ⟨s, x, -, htokens, -, hstart, -⟩ :=
    exists_section source heof (List.forall_mem_append.mp hbody).1 hu hts last
  have hsize : s.size ≤ (u ++ ts).length := by
    rw [Section.size, htokens, List.length_append]
    omega
  rw [← hstart]
  exact (alike_parseAt level (by omega) (by omega) 0 le_rfl s.size.zero_le).eq_of_same

/-- A program is read to its end section by section: it has an expression for each section if every one can
be read alone, and otherwise one error for each section that cannot. -/
theorem recovery_is_sectional (source : String) (body : List Token) (eof stop : Token)
    (hbody : ∀ t ∈ body, t.lexeme ≠ .eof) (heof : eof.lexeme = .eof) (hstop : stop.lexeme = .eof) :
    (∃ outcomes last, Rounds ⟨source, none, body ++ [eof]⟩ outcomes ⟨source, last, [eof]⟩ ∧
      ∀ fuel, body.length < fuel → sections fuel ⟨source, none, body ++ [eof]⟩ = outcomes) ∧
    (∀ last level behind depth, behind <:+ body → behind.length < depth →
      parseAt depth level ⟨source, last, behind ++ [eof]⟩ =
        parseAt (behind.length + 1) level ⟨source, last, behind ++ [eof]⟩) ∧
    ((program source (body ++ [eof])).isOk = true ↔
      ∀ part ∈ parts body eof, (program source (part.1 ++ [stop])).isOk = true) ∧
    (∀ es, program source (body ++ [eof]) = .ok es →
      List.Forall₂ (fun part e => program source (part.1 ++ [stop]) = .ok [e]) (parts body eof) es) ∧
    ∀ errors, program source (body ++ [eof]) = .error errors →
      List.Forall₂ (Blames source stop)
        ((parts body eof).filter fun part => !(program source (part.1 ++ [stop])).isOk) errors := by
  obtain ⟨outcomes, last, hrounds, hfuel, hyields⟩ := rounds_of_closed source heof body hbody none
  have hsections := hfuel ((body ++ [eof]).length + 1) (by rw [List.length_append]; omega)
  have hne : ∀ part ∈ parts body eof, part.1 ≠ [] := by
    intro part hpart
    simpa using List.of_mem_filter hpart
  have hsettles := forall₂_settles hstop hne hyields
  have herrors := forall₂_error? hsettles
  refine ⟨⟨outcomes, last, hrounds, hfuel⟩, fun last level behind depth hbehind hd => ?_, ?_, ?_, ?_⟩
  · exact parseAt_deep heof (fun t ht => hbody t (hbehind.mem ht)) last level hd behind.length.lt_succ_self
  · have hgood : (program source (body ++ [eof])).isOk = true ↔ outcomes.filterMap error? = [] := by
      rw [program_eq hsections]
      cases outcomes.filterMap error? <;> simp [Except.isOk, Except.toBool]
    rw [hgood, ← List.length_eq_zero_iff, ← herrors.length_eq, List.length_eq_zero_iff,
      List.filter_eq_nil_iff]
    simp only [Bool.not_eq_true', Bool.not_eq_false]
  · intro es hes
    obtain ⟨hgood, rfl⟩ := of_program_ok hsections hes
    exact forall₂_expr? hsettles hgood
  · intro errors herr
    rw [of_program_error hsections herr]
    exact herrors

def unclosed : List Token :=
  [.mark .openBracket, .number 1, .mark .comma, .mark .separator, .number 2, .mark .separator,
    .mark .separator, .name "f", .mark .openParen, .name "a", .mark .colon, .mark .separator,
    .number 3].map (⟨·, default⟩)

theorem unclosed_brackets_recover : ∃ errors,
    program "t" (unclosed ++ [⟨.eof, default⟩]) = .error errors ∧ errors.length = 2 ∧
      List.Forall₂ (Blames "t" ⟨.eof, default⟩)
        [(unclosed.take 3, ⟨.mark .separator, default⟩),
          ((unclosed.drop 7).take 4, ⟨.mark .separator, default⟩)] errors := by
  obtain ⟨-, -, -, -, herrors⟩ :=
    recovery_is_sectional "t" unclosed ⟨.eof, default⟩ ⟨.eof, default⟩ (by decide) rfl rfl
  cases h : program "t" (unclosed ++ [⟨.eof, default⟩]) with
  | ok es =>
    have hfails : (program "t" (unclosed ++ [⟨.eof, default⟩])).isOk = false := by decide +kernel
    rw [h] at hfails
    cases hfails
  | error errors =>
    have hparts : ((parts unclosed ⟨.eof, default⟩).filter fun part =>
        !(program "t" (part.1 ++ [⟨.eof, default⟩])).isOk) =
        [(unclosed.take 3, ⟨.mark .separator, default⟩),
          ((unclosed.drop 7).take 4, ⟨.mark .separator, default⟩)] := by decide +kernel
    have hblames := herrors errors h
    rw [hparts] at hblames
    exact ⟨errors, rfl, hblames.length_eq.symm, hblames⟩

end DiceLang.Parser

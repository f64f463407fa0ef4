import DiceLang.Proofs.Eval.Ending
import DiceLang.Proofs.Eval.Typed
import DiceLang.Proofs.Parser.Spans

/-! Where errors point: to the text from which the expression that failed was read, or to no text. -/

namespace DiceLang

variable {source text : String} {e n x : Expr}

def Expr.ReadFrom (source text : String) (n : Expr) : Prop :=
  ∃ program, parse source text = .ok program ∧ ∃ e ∈ program, n.Within e

structure Location.PointsInto (source text : String) (loc : Location) : Prop where
  named : loc.source = source
  filled : loc.span.first.offset < loc.span.last.offset
  inside : loc.span.last.offset ≤ text.utf8ByteSize

lemma Expr.ReadFrom.pointsInto (h : n.ReadFrom source text) : n.location.PointsInto source text := by
  obtain ⟨program, hparse, e, he, hn⟩ := h
  unfold parse at hparse
  cases hlex : lex text with
  | error _ =>
    rw [hlex] at hparse
    cases hparse
  | ok tokens =>
    rw [hlex] at hparse
    obtain ⟨hnested, hlast⟩ := Parser.nested_of_program hlex hparse he
    obtain ⟨hsource, hfilled, -⟩ := hnested n hn
    exact ⟨hsource, hfilled, (hnested.covers hn).2.trans hlast⟩

namespace Session

open Eval

variable {mode : OutputMode} {program : List Expr} {fetch : Fetch}

lemma location_outputOf (mode : OutputMode) (e : Expr) : (outputOf mode e).location = e.location := by
  rw [outputOf.eq_def]
  split <;> rfl

lemma children_outputOf {c : Expr} (hc : c ∈ (outputOf mode e).children) :
    c = e ∨ c ∈ e.children ∨ ∃ r ∈ e.children, c = outputOf mode r := by
  rw [outputOf.eq_def] at hc
  split at hc
  · rcases List.mem_cons.mp hc with rfl | hc
    · exact .inr (.inl List.mem_cons_self)
    · exact .inr (.inr ⟨_, List.mem_cons_of_mem _ List.mem_cons_self, List.mem_singleton.mp hc⟩)
  · exact .inl (List.mem_singleton.mp hc)

lemma within_outputOf (h : x.Within (outputOf mode e)) :
    ∃ n, n.Within e ∧ (x = n ∨ x = outputOf mode n) := by
  induction e using Expr.children_induction with
  | step e ih =>
    cases h with
    | self => exact ⟨e, .self, .inr rfl⟩
    | inside hc hx =>
      rcases children_outputOf hc with rfl | hc | ⟨r, hr, rfl⟩
      · exact ⟨x, hx, .inl rfl⟩
      · exact ⟨x, .inside hc hx, .inl rfl⟩
      · obtain ⟨n, hn, hxn⟩ := ih r hr hx
        exact ⟨n, .inside hr hn, hxn⟩

lemma within_withOutput (he : e ∈ withOutput mode program) (hx : x.Within e) :
    ∃ n, (∃ e ∈ program, n.Within e) ∧ (x = n ∨ x = outputOf mode n) := by
  rw [withOutput] at he
  split at he
  · exact ⟨x, ⟨e, he, hx⟩, .inl rfl⟩
  · cases hlast : program.getLast? with
    | some last =>
      rw [hlast] at he
      rcases List.mem_append.mp he with he | he
      · exact ⟨x, ⟨e, List.mem_of_mem_dropLast he, hx⟩, .inl rfl⟩
      · obtain rfl := List.mem_singleton.mp he
        obtain ⟨n, hn, hxn⟩ := within_outputOf hx
        exact ⟨n, ⟨last, List.mem_of_getLast? hlast, hn⟩, hxn⟩
    | none =>
      rw [hlast] at he
      exact ⟨x, ⟨e, he, hx⟩, .inl rfl⟩

def Own (mode : OutputMode) (source text : String) (x : Expr) : Prop :=
  ∃ n : Expr, n.ReadFrom source text ∧ (x = n ∨ x = outputOf mode n)

def Imported (fetch : Fetch) (address : String) (x : Expr) : Prop :=
  ∃ text, fetch address = .ok text ∧ x.ReadFrom address text

def Met (fetch : Fetch) (mode : OutputMode) (source text : String) (x : Expr) : Prop :=
  Own mode source text x ∨ (∃ address, Imported fetch address x) ∨ x.location = .builtin

lemma Own.pointsInto (h : Own mode source text x) : x.location.PointsInto source text := by
  obtain ⟨n, hn, rfl | rfl⟩ := h
  · exact hn.pointsInto
  · rw [location_outputOf]
    exact hn.pointsInto

lemma closed_met : Closed fun e => ∀ n, Expr.Within n e → Met fetch mode source text n :=
  closed_within (fun _ => .inr (.inr rfl)) (fun _ => .inr (.inr rfl)) (fun _ => .inr (.inr rfl))
    fun _ _ => .inr (.inr rfl)

lemma error_of_perform {α : Type} {s : Session} {step : Eval α} {reason : Interrupt}
    (h : (s.perform step).1 = .error (.interrupted reason)) :
    step s.machine = .error reason (s.perform step).2.machine := by
  rw [perform] at h ⊢
  split at h
  · cases h
  · cases h
    assumption

lemma raised_of_run {options : Options} {e : EvaluationError}
    (h : ((start options fetch).run source text).1 = .error (.interrupted (.failed e))) :
    ∃ site, Met fetch options.defaultMode source text site ∧ RaisedAt e site := by
  let code (e : Expr) : Prop := ∀ n, Expr.Within n e → Met fetch options.defaultMode source text n
  cases hparse : parse source text with
  | error errors =>
    rw [run_malformed hparse] at h
    cases h
  | ok program =>
    rw [run_eq hparse] at h
    have hasks : (anyEnding code evaluate).Asks :=
      Logic.asks_evaluate uniform_ending (fun _ => tolerates_anyEnding) closed_met
    have hcode : ∀ e ∈ withOutput options.defaultMode program, code e := by
      intro e he x hx
      obtain ⟨n, hn, hxn⟩ := within_withOutput he hx
      exact .inl ⟨n, ⟨program, hparse, hn⟩, hxn⟩
    let m := (start options fetch).machine.onLog fun _ => .empty
    have hmade : m.Made code := by
      refine ⟨(Environment.becomes_pushRoot Heap.made_empty).made, ?_⟩
      intro address imported read hfetch hread e he n hn
      exact .inr (.inl ⟨address, imported, hfetch, read, hread, e, he, hn⟩)
    have hends := ending_evaluateAll hasks .undefined hcode m hmade
    rcases error_of_bind (error_of_perform h) with hall | ⟨_, _, -, ⟨⟩⟩
    obtain ⟨site, hsite, hraised⟩ := hends.raised e _ hall
    exact ⟨site, hsite site .self, hraised⟩

end Session

open Session Eval in
/-- A run that fails does so at a node of its own text, of a text that it can import, or at one that was
made from a value. The error has the name of the text of that node, and covers some of that text. So it has
the name of the run exactly for nodes of its own text, if nothing else goes by that name. -/
theorem errors_point_into_their_text {options : Options} {fetch : Fetch} {source text : String}
    {e : EvaluationError}
    (h : ((start options fetch).run source text).1 = .error (.interrupted (.failed e))) :
    (∃ site, RaisedAt e site ∧ (Own options.defaultMode source text site ∨
      (∃ address, Imported fetch address site) ∨ site.location = .builtin)) ∧
    (∀ site, RaisedAt e site →
      (Own options.defaultMode source text site → e.location.PointsInto source text) ∧
      ∀ address, Imported fetch address site → ∃ imported, fetch address = .ok imported ∧
        e.location.PointsInto address imported ∧ (e.location.source = source ↔ address = source)) ∧
    (source ≠ Location.builtin.source → (∀ imported, fetch source = .ok imported → imported = text) →
      (e.location.source = source ↔
        ∃ site, RaisedAt e site ∧ Own options.defaultMode source text site)) := by
  obtain ⟨site, hmet, hraised⟩ := raised_of_run h
  refine ⟨⟨site, hraised, hmet⟩, ?_, fun hbuiltin hfetch => ⟨fun hsource => ⟨site, hraised, ?_⟩, ?_⟩⟩
  · rintro site ⟨fault, rfl⟩
    refine ⟨Own.pointsInto, ?_⟩
    rintro address ⟨imported, hfetch, hread⟩
    refine ⟨imported, hfetch, hread.pointsInto, ?_⟩
    exact ⟨hread.pointsInto.named.symm.trans, hread.pointsInto.named.trans⟩
  · obtain ⟨fault, rfl⟩ := hraised
    rcases hmet with hown | ⟨address, imported, himported, hread⟩ | hplace
    · exact hown
    · obtain rfl : address = source := hread.pointsInto.named.symm.trans hsource
      obtain rfl := hfetch imported himported
      exact ⟨site, hread, .inl rfl⟩
    · exact absurd ((congrArg Location.source hplace).symm.trans hsource).symm hbuiltin
  · rintro ⟨site, ⟨fault, rfl⟩, hown⟩
    exact hown.pointsInto.named

namespace Session

def failure? {α : Type} : Except RunError α → Option EvaluationError
  | .error (.interrupted (.failed e)) => some e
  | _ => none

lemma of_failure? {α : Type} {r : Except RunError α} {e : EvaluationError} (h : failure? r = some e) :
    r = .error (.interrupted (.failed e)) := by
  unfold failure? at h
  split at h
  · rw [Option.some.inj h]
  · cases h

def namesake : Session := start ⟨5, .kind .number, .roll, 0⟩ (.ofTable [("main", "              1 / 0")])

end Session

open Session Eval in
theorem namesake_fails_in_import : ∃ e site,
    failure? (namesake.run "main" "import \"main\"").1 = some e ∧ RaisedAt e site ∧
      Imported (.ofTable [("main", "              1 / 0")]) "main" site ∧
      e.location.source = "main" ∧ ¬ e.location.PointsInto "main" "import \"main\"" := by
  have hfails : failure? (namesake.run "main" "import \"main\"").1 =
      some ⟨.divisionByZero, ⟨"main", ⟨⟨1, 15, 14⟩, ⟨1, 20, 19⟩⟩⟩, "1 / 0"⟩ := by decide +kernel
  obtain ⟨⟨site, hraised, hmet⟩, hplace, -⟩ := errors_point_into_their_text (of_failure? hfails)
  have houtside : ¬ Location.PointsInto "main" "import \"main\""
      ⟨"main", ⟨⟨1, 15, 14⟩, ⟨1, 20, 19⟩⟩⟩ := fun hin => absurd hin.inside (by decide)
  refine ⟨_, site, hfails, hraised, ?_, rfl, houtside⟩
  rcases hmet with hown | ⟨address, himported⟩ | hbuiltin
  · exact absurd ((hplace site hraised).1 hown) houtside
  · obtain ⟨-, -, -, hname⟩ := (hplace site hraised).2 address himported
    exact hname.mp rfl ▸ himported
  · obtain ⟨fault, hsite⟩ := hraised
    have hlocation := (congrArg EvaluationError.location hsite).trans hbuiltin
    exact absurd (congrArg Location.source hlocation) (by decide)

open Session in
theorem namesake_error_outside_program :
    (failure? (namesake.run "main" "import \"main\"").1).map EvaluationError.location =
      some ⟨"main", ⟨⟨1, 15, 14⟩, ⟨1, 20, 19⟩⟩⟩ ∧ "import \"main\"".utf8ByteSize = 13 := by
  decide +kernel

end DiceLang

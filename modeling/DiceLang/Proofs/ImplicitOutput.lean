import DiceLang.Proofs.Eval.Observation
import DiceLang.Proofs.Expr.RoundTrip

/-! Programs that ask for no output. Nothing that they come to evaluate puts anything out, in whatever
function it stands, and so the one output that is added for them is never nested. -/

namespace DiceLang

namespace Expr

variable {e : Expr}

def IsOutput : Expr → Prop
  | .output .. => True
  | _ => False

def IsImport : Expr → Prop
  | .importing .. => True
  | _ => False

lemma anyOutput_iff {es : List Expr} : anyOutput es = true ↔ ∃ c ∈ es, c.hasOutput = true := by
  induction es with
  | nil => simp [anyOutput]
  | cons e es ih => simp [anyOutput, ih]

lemma anyEntryOutput_iff {es : List (String × Expr)} :
    anyEntryOutput es = true ↔ ∃ c ∈ es.map Prod.snd, c.hasOutput = true := by
  induction es with
  | nil => simp [anyEntryOutput]
  | cons e es ih => simp [anyEntryOutput, ih]

lemma optionalOutput_iff {o : Option Expr} :
    optionalOutput o = true ↔ ∃ c ∈ o.toList, c.hasOutput = true := by
  cases o <;> simp [optionalOutput]

lemma anyDefaultOutput_iff {es : List (String × Option Expr)} :
    anyDefaultOutput es = true ↔ ∃ c ∈ es.filterMap Prod.snd, c.hasOutput = true := by
  induction es with
  | nil => simp [anyDefaultOutput]
  | cons e es ih =>
    obtain ⟨name, o⟩ := e
    cases o <;> simp [anyDefaultOutput, optionalOutput, ih]

lemma hasOutput_iff_children (e : Expr) :
    e.hasOutput = true ↔ e.IsOutput ∨ ∃ c ∈ e.children, c.hasOutput = true := by
  cases e <;> simp [hasOutput, IsOutput, children, anyOutput_iff, anyEntryOutput_iff,
    anyDefaultOutput_iff, optionalOutput_iff, or_and_right, exists_or, or_assoc]

lemma hasOutput_iff (e : Expr) : e.hasOutput = true ↔ ∃ n, Within n e ∧ n.IsOutput := by
  induction e using children_induction with
  | step e ih =>
    rw [hasOutput_iff_children]
    constructor
    · rintro (he | ⟨c, hc, hout⟩)
      · exact ⟨e, .self, he⟩
      · obtain ⟨n, hn, hout⟩ := (ih c hc).mp hout
        exact ⟨n, .inside hc hn, hout⟩
    · rintro ⟨n, hn, hout⟩
      cases hn with
      | self => exact .inl hout
      | inside hc hn => exact .inr ⟨_, hc, (ih _ hc).mpr ⟨n, hn, hout⟩⟩

def Silent (e : Expr) : Prop := ∀ n, Within n e → ¬ n.IsOutput ∧ ¬ n.IsImport

lemma silent_iff : e.Silent ↔ (¬ e.IsOutput ∧ ¬ e.IsImport) ∧ ∀ c ∈ e.children, c.Silent :=
  forall_within

lemma Silent.hasOutput (h : e.Silent) : e.hasOutput = false := by
  rw [← Bool.not_eq_true, hasOutput_iff]
  rintro ⟨n, hn, hout⟩
  exact (h n hn).1 hout

end Expr

lemma closed_silent : Closed Expr.Silent :=
  closed_within (fun _ => ⟨id, id⟩) (fun _ => ⟨id, id⟩) (fun _ => ⟨id, id⟩) fun _ _ => ⟨id, id⟩

variable {m n n' : Machine}

structure Machine.Unheard (m n : Machine) : Prop where
  heap : n.env.heap.Made Expr.Silent
  settings : n.settings = m.settings
  records : n.log.records = m.log.records
  inFlight : n.log.current.map InFlight.mode = m.log.current.map InFlight.mode

lemma Machine.Unheard.refl (hm : m.env.heap.Made Expr.Silent) : m.Unheard m := ⟨hm, rfl, rfl, rfl⟩

lemma Machine.Unheard.of_deeper {hd : m.depth.val < maxDepth} (h : (m.deeper hd).Unheard n) :
    m.Unheard n := ⟨h.heap, h.settings, h.records, h.inFlight⟩

lemma Machine.Unheard.idle (h : m.Unheard n) (hm : m.log.current = none) : n.log.current = none := by
  have hflight := h.inFlight
  rw [hm] at hflight
  exact Option.map_eq_none_iff.mp hflight

lemma Machine.Unheard.trans (h : m.Unheard n) (h' : n.Unheard n') : m.Unheard n' :=
  ⟨h'.heap, h'.settings.trans h.settings, h'.records.trans h.records, h'.inFlight.trans h.inFlight⟩

namespace Eval

variable {α β : Type} {Q : α → Machine → Prop}

structure Orderly (Q : α → Machine → Prop) (r : EStateM.Result Interrupt Machine α) : Prop where
  ok : ∀ a n, r = .ok a n → Q a n
  failed : ∀ e n, r = .error (.failed e) n → e.fault.Ordinary

lemma orderly_ok {a : α} (h : Q a n) : Orderly Q (.ok a n) := by
  constructor
  · rintro _ _ ⟨⟩
    exact h
  · rintro _ _ ⟨⟩

lemma orderly_failed {fault : Fault} (site : Expr) (h : fault.Ordinary) :
    Orderly Q (.error (.failed (site.error fault)) n) := by
  constructor
  · rintro _ _ ⟨⟩
  · rintro _ _ ⟨⟩
    exact h

lemma orderly_unfinished (w : Work) : Orderly Q (.error (.unfinished (w := w)) n) := by
  constructor
  · rintro _ _ ⟨⟩
  · rintro _ _ ⟨⟩

lemma Orderly.imp {R : α → Machine → Prop} {r : EStateM.Result Interrupt Machine α} (h : Orderly Q r)
    (hQ : ∀ a n, Q a n → R a n) : Orderly R r := ⟨fun a n hr => hQ a n (h.ok a n hr), h.failed⟩

lemma Orderly.bind {p : Eval α} {f : α → Eval β} {R : β → Machine → Prop} (hp : Orderly Q (p m))
    (hf : ∀ a n, p m = .ok a n → Q a n → Orderly R (f a n)) : Orderly R ((p >>= f) m) := by
  cases hr : p m with
  | ok a n =>
    rw [bind_run hr]
    exact hf a n hr (hp.ok a n hr)
  | error e n =>
    rw [bind_run_error hr]
    constructor
    · rintro _ _ ⟨⟩
    · rintro e _ ⟨⟩
      exact hp.failed e n hr

lemma Orderly.onExit {r : EStateM.Result Interrupt Machine α} {R : α → Machine → Prop}
    {f : α → Machine → Machine} {g : Machine → Machine} (h : Orderly Q r)
    (hf : ∀ a n, Q a n → R a (f a n)) : Orderly R (onExit f g r) := by
  cases r with
  | ok a n => exact orderly_ok (hf a n (h.ok a n rfl))
  | error e n =>
    constructor
    · rintro _ _ ⟨⟩
    · rintro e _ ⟨⟩
      exact h.failed e n rfl

lemma Orderly.nested {body : Eval α} {R : α → Machine → Prop} (site : Expr)
    (h : ∀ hd, Orderly Q (body (m.deeper hd))) (hQ : ∀ a n, Q a n → R a n.shallower) :
    Orderly R (nested site body m) := by
  rw [nested_run]
  split
  · exact (h _).onExit hQ
  · exact orderly_failed site trivial

def unheard (again : Again) : Logic Expr.Silent where
  Holds p Q := ∀ m : Machine, m.env.heap.Made Expr.Silent →
    Orderly (fun a n => m.Unheard n ∧ Q a) (p again m)
  ret ha m hm := orderly_ok ⟨.refl hm, ha⟩
  bind hp hf m hm := by
    refine (hp m hm).bind fun a n _ ⟨hn, ha⟩ => ?_
    exact (hf a ha n hn.heap).imp fun b n' ⟨hn', hb⟩ => ⟨hn.trans hn', hb⟩
  fail hfault _ m hm := orderly_failed _ hfault
  read _ hf m hm := hf m hm m hm
  onEnv _ hf m hm := by
    obtain ⟨hheap, hQ⟩ := hf m.env hm
    exact orderly_ok ⟨⟨hheap.made, rfl, rfl, rfl⟩, hQ⟩
  newFunction _ _ _ hf ho m hm := orderly_ok ⟨⟨hm, rfl, rfl, rfl⟩, ⟨hf, ho⟩, rfl⟩
  recordThrow die results m hm := by
    refine orderly_ok ⟨⟨hm, rfl, ?_, ?_⟩, trivial⟩
    · show (m.log.throw ⟨die, results⟩).records = _
      rw [RecordLog.throw]
      split <;> rfl
    · show (m.log.throw ⟨die, results⟩).current.map InFlight.mode = _
      rw [RecordLog.throw]
      split
      · rfl
      · cases m.log.current <;> rfl
  inScope parent h m hm := by
    beta_reduce
    rw [inScope_run]
    have hrelease (mark : Nat) (env : Environment) (n : Machine)
        (hn : Machine.Unheard { m with env := env } n) : m.Unheard (release mark n) :=
      ⟨hn.heap, hn.settings, hn.records, hn.inFlight⟩
    exact (h _ _ (Environment.becomes_enter hm parent).made).onExit fun a n ⟨hn, ha⟩ =>
      ⟨hrelease _ _ n hn, ha⟩
  reporting _ hs := absurd trivial (hs _ .self).1
  resolved _ hs := absurd trivial (hs _ .self).2

lemma uniform_unheard : Logic.Uniform unheard where
  transfer heq h m hm := heq ▸ h m hm
  nested {_ Q} _ _ _ _ h m hm := by
    refine Orderly.nested (Q := fun a n => m.Unheard n ∧ Q a) _ (fun hd => ?_) fun a n ⟨hn, ha⟩ => ?_
    · exact (h (m.deeper hd) hm).imp fun a n ⟨hn, ha⟩ => ⟨hn.of_deeper, ha⟩
    · exact ⟨⟨hn.heap, hn.settings, hn.records, hn.inFlight⟩, ha⟩

lemma tolerates_unheard (again : Again) : (unheard again).Tolerates where
  unfinished w m hm := orderly_unfinished w
  throwDie die m hm := by
    obtain ⟨hheap, hface⟩ := Dice.made_throw hm m.settings.budget die m.generator
    beta_reduce
    rw [throwDie_run]
    exact orderly_ok ⟨⟨hheap.made, rfl, rfl, rfl⟩, hface⟩
  shuffle hvs m hm := by
    beta_reduce
    rw [shuffle_run]
    split
    next x hx =>
      refine orderly_ok ⟨⟨hm, rfl, rfl, rfl⟩, fun v hv => ?_⟩
      exact hvs v (Generator.mem_of_mem_shuffle hx hv)
    · exact orderly_unfinished .draw

lemma unheard_asks : (unheard evaluate).Asks :=
  Logic.asks_evaluate uniform_unheard tolerates_unheard closed_silent

def Announces (mode : OutputMode) (e : Expr) (m n : Machine) : Prop :=
  ∃ r, n.log.records = m.log.records.push r ∧ r.mode = mode ∧ r.expression = e ∧
    r.kind = m.settings.defaultType.target ∧
    ∃ os : List Observation, os.length = evaluations m.settings mode ∧ r.outcome = .of mode os

variable {mode : OutputMode} {e : Expr} {scope : ScopeId}

lemma Announces.of_unheard (h : m.Unheard n) (h' : Announces mode e n n') : Announces mode e m n' := by
  obtain ⟨r, hrecords, hr⟩ := h'
  rw [h.settings] at hr
  exact ⟨r, hrecords.trans (by rw [h.records]), hr⟩

lemma orderly_output (site : Expr) (he : e.Silent) (hm : m.env.heap.Made Expr.Silent)
    (hidle : m.log.current = none) :
    Orderly (fun _ n => Announces mode e m n) (output evaluate site scope mode e none none m) := by
  let kind := m.settings.defaultType.target
  have hobserve := Logic.observe
    (Logic.converts (tolerates_unheard evaluate) closed_silent unheard_asks) scope mode he kind
  let started : Machine := { m with log := { m.log with current := some ⟨mode, #[]⟩ } }
  have hstart : start site mode m = .ok () started := by
    rw [start_run, hidle]
    rfl
  obtain ⟨text, hrun⟩ : ∃ text, output evaluate site scope mode e none none m =
      reporting site mode text e kind (observe evaluate scope mode e kind) m := ⟨_, rfl⟩
  rw [hrun, reporting, bind_run hstart]
  refine Orderly.bind (Orderly.onExit (hobserve started hm) fun _ _ h => h) fun outcome n ho hn => ?_
  obtain ⟨hn, -⟩ := hn
  rw [orAbandon_run] at ho
  obtain ⟨_, hbody, rfl⟩ := ok_of_onExit ho
  obtain ⟨hof, hlength⟩ := ok_of_observe hbody
  obtain ⟨c, hc, hmode⟩ := Option.map_eq_some_iff.mp hn.inFlight
  refine orderly_ok ⟨⟨c.mode, text, e, kind, outcome, c.dice.toList⟩, ?_, hmode, rfl, rfl, _, hlength, hof⟩
  show (RecordLog.finish _ text e kind outcome).records = _
  rw [RecordLog.finish, hc, hn.records]

lemma orderly_evaluate_output (loc : Location) (he : e.Silent) (hm : m.env.heap.Made Expr.Silent)
    (hidle : m.log.current = none) :
    Orderly (fun _ n => Announces mode e m n)
      (evaluate (.output loc mode e none none) scope none m) := by
  let Q (_ : Value) (n : Machine) := Announces mode e m n
  rw [evaluate_eq]
  refine Orderly.nested (Q := Q) _ (fun hd => ?_) fun _ _ h => h
  refine Orderly.bind (Q := Q) ?_ fun _ _ _ h => orderly_ok h
  exact Orderly.bind (orderly_output _ he hm hidle) fun _ _ _ h => orderly_ok h

end Eval

namespace Session

open Eval

variable {mode : OutputMode} {e : Expr}

def lastPart : Expr → Expr
  | .binary _ .sequence _ right => lastPart right
  | e => e

lemma orderly_outputOf (he : e.Silent) (hm : m.env.heap.Made Expr.Silent) (hidle : m.log.current = none)
    (scope : ScopeId) : Orderly (fun _ n => Announces mode (lastPart e) m n)
      (evaluate (outputOf mode e) scope none m) := by
  fun_induction outputOf mode e generalizing m with
  | case1 loc left right ih =>
    obtain ⟨-, hparts⟩ := Expr.silent_iff.mp he
    have hleft := unheard_asks left scope none (hparts left (by simp [Expr.children]))
    let Q (_ : Value) (n : Machine) := Announces mode (lastPart right) m n
    rw [evaluate_eq, lastPart]
    refine Orderly.nested (Q := Q) _ (fun hd => ?_) fun _ _ h => h
    refine Orderly.bind (Q := Q) ?_ fun _ _ _ h => orderly_ok h
    refine Orderly.bind (hleft _ hm) fun _ n _ hn => ?_
    obtain ⟨hn, -⟩ := hn
    have hright := ih (hparts right (by simp [Expr.children])) hn.heap (hn.idle hidle)
    exact hright.imp fun _ _ h => h.of_unheard hn.of_deeper
  | case2 e hsequence =>
    have hlast : lastPart e = e := by
      rw [lastPart]
      exact hsequence
    rw [hlast]
    exact orderly_evaluate_output _ he hm hidle

lemma orderly_evaluateAll {es : List Expr} (hes : ∀ e ∈ es, e.Silent) (he : e.Silent)
    (hm : m.env.heap.Made Expr.Silent) (hidle : m.log.current = none) (last : Value) :
    Orderly (fun _ n => Announces mode (lastPart e) m n)
      (evaluateAll last (es ++ [outputOf mode e]) m) := by
  induction es generalizing m last with
  | nil => exact Orderly.bind (orderly_outputOf he hm hidle _) fun v n _ h => orderly_ok h
  | cons x es ih =>
    rw [List.forall_mem_cons] at hes
    refine Orderly.bind (unheard_asks x _ none hes.1 m hm) fun v n _ ⟨hn, _⟩ => ?_
    exact (ih hes.2 hn.heap (hn.idle hidle) v).imp fun _ _ h => h.of_unheard hn

lemma withOutput_concat {es : List Expr} (hes : ∀ x ∈ es ++ [e], x.Silent) :
    withOutput mode (es ++ [e]) = es ++ [outputOf mode e] := by
  have hnone : (es ++ [e]).any Expr.hasOutput = false :=
    List.any_eq_false.mpr fun x hx => by simp [(hes x hx).hasOutput]
  rw [withOutput, hnone, List.getLast?_concat, List.dropLast_concat]
  rfl

lemma orderly_perform {α : Type} {s : Session} {step : Eval α} {Q : α → Prop}
    (h : Orderly (fun a _ => Q a) (step s.machine)) :
    (∀ fault, fault? (s.perform step).1 = some fault → fault.Ordinary) ∧
      ∀ a, (s.perform step).1 = .ok a → Q a := by
  rw [perform]
  split
  next a n hstep =>
    refine ⟨by rintro _ ⟨⟩, ?_⟩
    rintro _ ⟨⟩
    exact h.ok a n hstep
  next reason n hstep =>
    refine ⟨?_, by rintro _ ⟨⟩⟩
    cases reason with
    | failed e =>
      rintro _ ⟨⟩
      exact h.failed e n hstep
    | unfinished => rintro _ ⟨⟩

structure OneRecord (options : Options) (e : Expr) (records : List OutputRecord) (r : OutputRecord) :
    Prop where
  only : records = [r]
  mode : r.mode = options.defaultMode
  expression : r.expression = lastPart e
  kind : r.kind = options.defaultType.target
  roll : options.defaultMode = .roll → ∃ v, r.outcome = .value v
  sample : options.defaultMode = .sample → ∃ d, r.outcome = .distribution d ∧ d.aggregated = true ∧
    d.total = options.sampleSize

lemma oneRecord_of_announces {options : Options} {fetch : Fetch}
    (h : Announces options.defaultMode (lastPart e) (start options fetch).machine n) :
    ∃ r, OneRecord options e (n.log.aggregate n.env.heap).records.toList r := by
  obtain ⟨r, hrecords, hmode, hexpression, hkind, os, hlength, houtcome⟩ := h
  have hone : n.log.records = #[r] := hrecords
  refine ⟨r.aggregate n.env.heap, ?_, hmode, hexpression, hkind, fun hroll => ?_, fun hsample => ?_⟩
  · simp [RecordLog.aggregate, hone]
  · rw [hroll] at houtcome
    exact ⟨_, by rw [OutputRecord.aggregate, houtcome]; rfl⟩
  · rw [hsample] at houtcome hlength
    refine ⟨(Observation.tally os).aggregate n.env.heap, ?_, Distribution.aggregated_aggregate _ _, ?_⟩
    · rw [OutputRecord.aggregate, houtcome]
      rfl
    · rw [Distribution.total_aggregate, Observation.total_tally, hlength]
      rfl

end Session

open Eval Session

/-- A program that asks for no output and imports nothing never fails for nested outputs in a new session.
If it succeeds, the one record shows the last part of its last expression, in the mode and for the type
that are the default; a sample is aggregated and of the default size. -/
theorem silent_program_puts_out_once {options : Options} {fetch : Fetch} {source text : String}
    {program : List Expr} (hparse : parse source text = .ok program) (hprogram : program ≠ [])
    (hsilent : ∀ e ∈ program, e.Silent) :
    let result := ((Session.start options fetch).run source text).1
    fault? result ≠ some .nestedOutput ∧
      ∀ records, result = .ok records →
        ∃ r, OneRecord options (program.getLast hprogram) records r := by
  intro result
  let s := Session.start options fetch
  let step : Eval (List OutputRecord) := do
    let _ ← evaluateAll .undefined (withOutput options.defaultMode program)
    aggregateRecords
  have hresult : result = (s.perform step).1 := congrArg Prod.fst (run_eq hparse)
  have hlast := List.dropLast_append_getLast hprogram
  have hmade : s.machine.env.heap.Made Expr.Silent := by
    let nothing : Environment := ⟨.empty, .empty⟩
    have hnothing : nothing.heap.Made Expr.Silent := Heap.made_empty
    exact (Environment.becomes_pushRoot hnothing).made
  have hsteps : Orderly (fun records _ => ∃ r, OneRecord options (program.getLast hprogram) records r)
      (step s.machine) := by
    have hes : ∀ e ∈ program.dropLast ++ [program.getLast hprogram], e.Silent := by rwa [hlast]
    have hwith : withOutput options.defaultMode _ = _ := withOutput_concat hes
    rw [hlast] at hwith
    show Orderly _ ((evaluateAll .undefined (withOutput options.defaultMode program) >>= _) s.machine)
    rw [hwith]
    refine Orderly.bind (orderly_evaluateAll ?_ ?_ hmade rfl _) fun _ n _ h => ?_
    · exact fun e he => hsilent e (List.dropLast_subset program he)
    · exact hsilent _ (List.getLast_mem hprogram)
    · exact orderly_ok (oneRecord_of_announces h)
  obtain ⟨hfaults, hrecords⟩ := orderly_perform hsteps
  rw [hresult]
  refine ⟨fun h => ?_, hrecords⟩
  exact hfaults _ h

def Expr.callsThrow : Expr → Bool
  | .binary _ .sequence
      (.binary _ .assign (.var ..) (.lambda _ [] (.binary _ .dice (.scalar ..) (.scalar ..))))
      (.call _ (.var ..) [] []) => true
  | _ => false

lemma Expr.silent_of_callsThrow {e : Expr} (h : e.callsThrow = true) : e.Silent := by
  have hnode {n : Expr} (hn : ¬ n.IsOutput ∧ ¬ n.IsImport) (hc : n.children.Forall Silent) :
      n.Silent := silent_iff.mpr ⟨hn, List.forall_iff_forall_mem.mp hc⟩
  have hleaf {n : Expr} (hn : ¬ n.IsOutput ∧ ¬ n.IsImport) (hc : n.children = []) : n.Silent :=
    hnode hn (by rw [hc]; trivial)
  unfold callsThrow at h
  split at h
  · refine hnode ⟨id, id⟩ ⟨hnode ⟨id, id⟩ ⟨hleaf ⟨id, id⟩ rfl, ?_⟩, ?_⟩
    · exact hnode ⟨id, id⟩ (hnode ⟨id, id⟩ ⟨hleaf ⟨id, id⟩ rfl, hleaf ⟨id, id⟩ rfl⟩)
    · exact hnode ⟨id, id⟩ (hleaf ⟨id, id⟩ rfl)
  · cases h

theorem dice_in_function_sampled_once :
    let options : Options := ⟨3, .kind .number, .sample, 42⟩
    let run := (Session.start options (.ofTable [])).run "main" "f = (fun() \x7b 2d6 \x7d); f()"
    fault? run.1 ≠ some .nestedOutput ∧ ∃ e records r, run.1 = .ok records ∧
      OneRecord options e records r ∧ e.callsThrow = true := by
  intro options run
  obtain ⟨e, hparse, he⟩ := exists_of_readsOne "f = (fun() \x7b 2d6 \x7d); f()" Expr.callsThrow
    (by decide +kernel)
  have hsilent : ∀ x ∈ [e], x.Silent := by
    intro x hx
    rw [List.mem_singleton.mp hx]
    exact Expr.silent_of_callsThrow he
  have honce : fault? run.1 ≠ some .nestedOutput ∧ ∀ records, run.1 = .ok records →
      ∃ r, OneRecord options e records r :=
    silent_program_puts_out_once hparse (List.cons_ne_nil e []) hsilent
  obtain ⟨records, hrun⟩ : ∃ records, run.1 = .ok records := by
    have hsome : run.1.toOption.isSome = true := by decide +kernel
    cases hrun : run.1 with
    | ok records => exact ⟨records, rfl⟩
    | error reason =>
      rw [hrun] at hsome
      cases hsome
  obtain ⟨r, hr⟩ := honce.2 records hrun
  exact ⟨honce.1, e, records, r, hrun, hr, he⟩

end DiceLang

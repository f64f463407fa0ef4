import DiceLang.Proofs.Distribution.Counting
import DiceLang.Proofs.Eval.Typed
import DiceLang.Proofs.Value.Untouched
import DiceLang.Report

/-! What the records of a run say about the results that were observed. A record refers to its results, so
that it shows them as they are when it is looked at. -/

namespace DiceLang

/-- The result of an evaluation with the heap at the moment when it was returned. -/
structure Observation where
  value : Value
  heap : Heap

namespace Observation

/-- No container that lies in a result is changed after the result was returned, neither before the
results behind it were returned nor up to the heap `h`. -/
structure LeftAlone (os : List Observation) (h : Heap) : Prop where
  meanwhile : os.Pairwise fun o o' => o.heap.Untouched o'.heap o.value
  later : ∀ o ∈ os, o.heap.Untouched h o.value

def LooksLike (o : Observation) (h : Heap) (v : Value) : Prop := o.heap.LooksLike o.value h v

def tally (os : List Observation) : Distribution :=
  os.foldl (fun d o => d.incr o.heap o.value) .empty

lemma tally_concat (os : List Observation) (o : Observation) :
    tally (os ++ [o]) = (tally os).incr o.heap o.value := by
  rw [tally, List.foldl_append]
  rfl

lemma total_tally (os : List Observation) : (tally os).total = os.length := by
  induction os using List.reverseRecOn with
  | nil => rfl
  | append_singleton os o ih =>
    rw [tally_concat, List.length_append, ← ih]
    rfl

variable {os : List Observation} {o : Observation} {h : Heap}

lemma LeftAlone.of_concat (hl : LeftAlone (os ++ [o]) h) : LeftAlone os h :=
  ⟨(List.pairwise_append.mp hl.meanwhile).1, fun p hp => hl.later p (List.mem_append_left _ hp)⟩

lemma countIn_congr {h h' : Heap} {v : Value} {cs : List Counter}
    (hcs : ∀ c ∈ cs, h.same c.value v = h'.same c.value v) :
    Distribution.countIn h v cs = Distribution.countIn h' v cs := by
  induction cs with
  | nil => rfl
  | cons c cs ih =>
    rw [List.forall_mem_cons] at hcs
    rw [Distribution.countIn, Distribution.countIn, hcs.1, ih hcs.2]

lemma LeftAlone.tallies (hl : LeftAlone os h) :
    Distribution.Tallies h (os.map Observation.value) (tally os).counters := by
  induction os using List.reverseRecOn with
  | nil => exact Distribution.tallies_nil h
  | append_singleton os o ih =>
    have htallies := ih hl.of_concat
    have hsame : ∀ c ∈ (tally os).counters, o.heap.same c.value o.value = h.same c.value o.value := by
      intro c hc
      obtain ⟨p, hp, hvalue⟩ := List.mem_map.mp (htallies.stems c hc)
      have hbefore := (List.pairwise_append.mp hl.meanwhile).2.2 p hp o (List.mem_singleton_self o)
      have hnow := hl.later p (List.mem_append_left _ hp)
      have hnew := hl.later o (List.mem_append_right _ (List.mem_singleton_self o))
      rw [hvalue] at hbefore hnow
      rw [Bool.eq_iff_iff, Heap.same_iff_bisimilar, Heap.same_iff_bisimilar]
      refine forall_congr' fun place => ?_
      rw [← hbefore.looksLike place, hnow.looksLike place, hnew.looksLike place]
    have hcounters : (tally (os ++ [o])).counters =
        Distribution.countIn h o.value (tally os).counters := by
      rw [tally_concat, Distribution.incr, countIn_congr hsame]
    rw [hcounters, List.map_append]
    exact htallies.countIn o.value

end Observation

open Classical in
/-- The outcome says what was observed: a roll has the text that its result had, and a sample counts under
each value the results that looked like it when they were returned. -/
def Outcome.Describes (h : Heap) (os : List Observation) : Outcome → Prop
  | .value v => ∃ o, os = [o] ∧ v = o.value ∧ h.text v = o.heap.text o.value
  | .distribution d =>
    d.total = os.length ∧ (∀ c ∈ d.counters, c.count = os.countP fun o => o.LooksLike h c.value) ∧
      ∀ o ∈ os, ∃ c ∈ d.counters, o.LooksLike h c.value

def Outcome.of : OutputMode → List Observation → Outcome
  | .roll, os => .value ((os.head?.map Observation.value).getD .undefined)
  | .sample, os => .distribution (Observation.tally os)

namespace Observation

variable {os : List Observation} {h : Heap}

lemma LeftAlone.same_iff (hl : LeftAlone os h) {o : Observation} (ho : o ∈ os) (v : Value) :
    h.same v o.value = true ↔ o.LooksLike h v := by
  rw [Heap.same_iff_bisimilar]
  refine forall_congr' fun place => ?_
  rw [(hl.later o ho).looksLike place]
  exact eq_comm

open Classical in
lemma LeftAlone.describes_tally (hl : LeftAlone os h) :
    (Outcome.distribution ((tally os).aggregate h)).Describes h os := by
  have htallies := hl.tallies.perm (Distribution.perm_aggregate h (tally os))
  refine ⟨?_, fun c hc => ?_, fun o ho => ?_⟩
  · rw [← total_tally os, Distribution.aggregate]
    split <;> rfl
  · rw [htallies.count c hc, List.countP_map]
    refine List.countP_congr fun o ho => ?_
    rw [decide_eq_true_eq]
    exact hl.same_iff ho c.value
  · obtain ⟨c, hc, hsame⟩ := htallies.covers o.value (List.mem_map_of_mem ho)
    exact ⟨c, hc, (hl.same_iff ho c.value).mp hsame⟩

lemma LeftAlone.describes (hl : LeftAlone os h) {mode : OutputMode} (hmode : mode = .roll → os.length = 1) :
    ((Outcome.of mode os).aggregate h).Describes h os := by
  cases mode with
  | sample => exact hl.describes_tally
  | roll =>
    obtain ⟨o, rfl⟩ := List.length_eq_one_iff.mp (hmode rfl)
    exact ⟨o, rfl, rfl, (hl.later o (List.mem_singleton_self o)).text_eq⟩

end Observation

namespace Eval

def observations (again : Again) (scope : ScopeId) (e : Expr) (kind : Option Kind) :
    Nat → Machine → List Observation
  | 0, _ => []
  | n + 1, m =>
    match again e scope kind m with
    | .ok v m => ⟨v, m.env.heap⟩ :: observations again scope e kind n m
    | .error _ _ => []

def evaluations (settings : Settings) : OutputMode → Nat
  | .roll => 1
  | .sample => settings.sampleSize

variable {again : Again} {scope : ScopeId} {e : Expr} {kind : Option Kind} {m m' : Machine}

lemma ok_of_sample {n : Nat} {d d' : Distribution} (h : sample again scope e kind n d m = .ok d' m') :
    d' = (observations again scope e kind n m).foldl (fun d o => d.incr o.heap o.value) d ∧
      (observations again scope e kind n m).length = n := by
  induction n generalizing d m with
  | zero =>
    cases h
    exact ⟨rfl, rfl⟩
  | succ n ih =>
    obtain ⟨v, m₁, hv, h⟩ := ok_of_bind h
    obtain ⟨d₁, m₂, hd, h⟩ := ok_of_bind h
    cases hd
    obtain ⟨hd', hlength⟩ := ih h
    rw [observations, hv]
    exact ⟨hd', congrArg Nat.succ hlength⟩

lemma ok_of_observe {mode : OutputMode} {outcome : Outcome}
    (h : observe again scope mode e kind m = .ok outcome m') :
    outcome = .of mode (observations again scope e kind (evaluations m.settings mode) m) ∧
      (observations again scope e kind (evaluations m.settings mode) m).length =
        evaluations m.settings mode := by
  cases mode with
  | roll =>
    obtain ⟨v, m₁, hv, h⟩ := ok_of_bind h
    cases h
    rw [evaluations, observations, hv]
    exact ⟨rfl, rfl⟩
  | sample =>
    obtain ⟨d, m₁, hd, h⟩ := ok_of_bind (show (sample again scope e kind m.settings.sampleSize .empty >>=
      fun d => pure (.distribution d)) m = .ok outcome m' from h)
    cases h
    obtain ⟨rfl, hlength⟩ := ok_of_sample hd
    exact ⟨rfl, hlength⟩

def opening (again : Again) (site : Expr) (scope : ScopeId) (mode : OutputMode)
    (name : Option Expr) : Eval Unit := do
  match name with
  | some x => do
    let _ ← string again scope x
    start site mode
  | none => start site mode

lemma record_of_output {site : Expr} {mode : OutputMode} {type : Option OutputType}
    {name : Option Expr} (h : output evaluate site scope mode e type name m = .ok () m') :
    ∃ n before r, opening evaluate site scope mode name m = .ok () n ∧
      m'.log.records = m.log.records ++ before ++ #[r] ∧ r.expression = e ∧
      r.kind = (type.getD m.settings.defaultType).target ∧
      (observations evaluate scope e r.kind (evaluations n.settings mode) n).length =
        evaluations n.settings mode ∧
      r.outcome = .of mode (observations evaluate scope e r.kind (evaluations n.settings mode) n) := by
  obtain ⟨_, _, ⟨⟩, h⟩ := ok_of_bind h
  -- The name is found first, which may leave records of its own.
  obtain ⟨text, m₀, hopen, hadds, h⟩ : ∃ text m₀,
      opening evaluate site scope mode name m = start site mode m₀ ∧ m.log.Adds m₀.log ∧
      reporting site mode text e (type.getD m.settings.defaultType).target
        (observe evaluate scope mode e (type.getD m.settings.defaultType).target) m₀ = .ok () m' := by
    cases name with
    | some x =>
      obtain ⟨text, m₀, htext, h⟩ := ok_of_bind h
      have hadds := recording_string scope x m
      rw [htext] at hadds
      exact ⟨text, m₀, bind_run htext, hadds, h⟩
    | none =>
      obtain ⟨text, m₀, htext, h⟩ := ok_of_bind h
      cases htext
      exact ⟨_, m, rfl, RecordLog.adds_of_eq rfl, h⟩
  obtain ⟨n, n', outcome, r, hstart, hbody, hlog, hr, he, hkind, houtcome⟩ :=
    ok_of_reporting (recording_observe scope mode e _) (keeps_observe scope mode e _) h
  obtain ⟨before, hbefore, -⟩ := hadds.trans hlog
  obtain ⟨hof, hlength⟩ := ok_of_observe hbody
  refine ⟨n, before, r, hopen.trans hstart, ?_, he, hkind, ?_, ?_⟩
  · rw [hr, hbefore, Array.push_eq_append]
  · rw [hkind, hlength]
  · rw [houtcome, hkind, hof]

lemma record_of_evaluate {loc : Location} {mode : OutputMode} {type : Option OutputType}
    {name : Option Expr} {target : Option Kind} {v : Value}
    (h : evaluate (.output loc mode e type name) scope target m = .ok v m') :
    ∃ (hd : m.depth.val < maxDepth) (n : Machine) (before : Array OutputRecord) (r : OutputRecord)
      (behind : Array OutputRecord),
      opening evaluate (.output loc mode e type name) scope mode name (m.deeper hd) = .ok () n ∧
      m'.log.records = m.log.records ++ before ++ #[r] ++ behind ∧ r.expression = e ∧
      r.kind = (type.getD m.settings.defaultType).target ∧
      (observations evaluate scope e r.kind (evaluations n.settings mode) n).length =
        evaluations n.settings mode ∧
      r.outcome = .of mode (observations evaluate scope e r.kind (evaluations n.settings mode) n) := by
  obtain ⟨hd, w, m₁, m₂, hnative, hconvert, rfl⟩ := ok_of_evaluate h
  obtain ⟨_, m₁, houtput, ⟨⟩⟩ := ok_of_bind hnative
  obtain ⟨n, before, r, hopen, hr, hrest⟩ := record_of_output houtput
  have hadds := recording_convert scope target .undefined m₁
  rw [hconvert] at hadds
  obtain ⟨behind, hbehind, -⟩ := hadds
  have hrecords : m₂.log.records = m.log.records ++ before ++ #[r] ++ behind := by
    rw [show m₂.log.records = m₁.log.records ++ behind from hbehind, hr]
    rfl
  exact ⟨hd, n, before, r, behind, hopen, hrecords, hrest⟩

end Eval

lemma RecordLog.Adds.initial_segment {log log' : RecordLog} (h : log.Adds log') :
    log.records.toList <+: log'.records.toList := by
  obtain ⟨added, heq, -⟩ := h
  exact ⟨added.toList, by rw [heq, Array.toList_append]⟩

lemma Session.ok_of_run {s : Session} {source text : String} {records : List OutputRecord}
    (h : (s.run source text).1 = .ok records) :
    ∃ program last m, parse source text = .ok program ∧
      evaluateAll .undefined (withOutput s.defaultMode program) (s.machine.onLog fun _ => .empty) =
        .ok last m ∧
      (s.run source text).2.heap = m.env.heap ∧
      records = (m.log.aggregate m.env.heap).records.toList := by
  rw [run] at h ⊢
  dsimp only at h ⊢
  split at h
  · cases h
  next program hparse =>
    obtain ⟨last, m, hall, hend⟩ := Eval.ok_of_bind (ok_of_perform h)
    refine ⟨program, last, m, hparse, hall, ?_, ?_⟩
    · generalize (Session.perform _ _).2 = s' at hend ⊢
      injection hend with _ hm
      rw [heap, ← hm]
      rfl
    · injection hend with hrecords _
      exact hrecords.symm

open Eval

/-- Whatever comes after a completed output, its record stays, and it shows the results as they were when
they were returned if nothing that lies in them has been changed since. -/
theorem outputs_show_results_left_alone {loc : Location} {mode : OutputMode} {e : Expr}
    {type : Option OutputType} {name : Option Expr} {scope : ScopeId} {target : Option Kind}
    {m m' : Machine} {v : Value}
    (h : evaluate (.output loc mode e type name) scope target m = .ok v m') :
    (∃ hd n before r behind,
      opening evaluate (.output loc mode e type name) scope mode name (m.deeper hd) = .ok () n ∧
      m'.log.records = m.log.records ++ before ++ #[r] ++ behind ∧
      r.expression = e ∧ r.kind = (type.getD m.settings.defaultType).target ∧
      let os := observations evaluate scope e r.kind (evaluations n.settings mode) n
      os.length = evaluations n.settings mode ∧ r.outcome = .of mode os ∧
      ∀ later : Machine, m'.log.records.toList <+: later.log.records.toList →
        r.aggregate later.env.heap ∈ (later.log.aggregate later.env.heap).records ∧
        (Observation.LeftAlone os later.env.heap →
          (r.aggregate later.env.heap).outcome.Describes later.env.heap os)) ∧
    (∀ e scope target m,
      m.log.records.toList <+: (after (evaluate e scope target m)).log.records.toList) ∧
    ∀ (s : Session) (source text : String) (records : List OutputRecord),
      (s.run source text).1 = .ok records →
      ∃ program last m, parse source text = .ok program ∧
        Session.evaluateAll .undefined (Session.withOutput s.defaultMode program)
          (s.machine.onLog fun _ => .empty) = .ok last m ∧
        (s.run source text).2.heap = m.env.heap ∧
        records = (m.log.aggregate m.env.heap).records.toList := by
  refine ⟨?_, fun e scope target m => ?_, fun s source text records => Session.ok_of_run⟩
  · obtain ⟨hd, n, before, r, behind, hopen, hrecords, he, hkind, hlength, houtcome⟩ :=
      record_of_evaluate h
    refine ⟨hd, n, before, r, behind, hopen, hrecords, he, hkind, hlength, houtcome,
      fun later hlater => ⟨?_, fun hleft => ?_⟩⟩
    · refine Array.mem_map_of_mem (Array.mem_toList_iff.mp (hlater.subset ?_))
      rw [hrecords]
      simp
    · change (r.outcome.aggregate later.env.heap).Describes _ _
      rw [houtcome]
      apply hleft.describes
      rintro rfl
      exact hlength
  · exact RecordLog.Adds.initial_segment (recording_evaluate e scope target m)

def Heap.keepsScalars (h h' : Heap) : Value → Bool
  | .list r => (h.items r).all (fun v => v.scalar?.isSome) &&
      (h.items r).map Value.scalar? == (h'.items r).map Value.scalar?
  | _ => false

lemma Heap.untouched_of_keepsScalars {h h' : Heap} {v : Value} (hk : h.keepsScalars h' v = true) :
    h.Untouched h' v := by
  have hscalars (as bs : List Value) (has : ∀ a ∈ as, a.scalar?.isSome = true)
      (heq : as.map Value.scalar? = bs.map Value.scalar?) : bs = as := by
    induction as generalizing bs with
    | nil => exact List.map_eq_nil_iff.mp heq.symm
    | cons a as ih =>
      rw [List.forall_mem_cons] at has
      cases bs with
      | nil => cases heq
      | cons b bs =>
        rw [List.map_cons, List.map_cons, List.cons.injEq] at heq
        obtain ⟨s, hs⟩ := Option.isSome_iff_exists.mp has.1
        have ha : a = .scalar s := by cases a <;> cases hs; rfl
        have hb : b = .scalar s := by
          rw [heq.1] at hs
          cases b <;> cases hs
          rfl
        rw [ha, hb, ih bs has.2 heq.2]
  cases v with
  | list r =>
    simp only [keepsScalars, Bool.and_eq_true, List.all_eq_true, beq_iff_eq] at hk
    intro w c hw hc
    rcases hw.cases_head with rfl | ⟨x, ⟨c', hc', hx⟩, hxw⟩
    · obtain rfl := Option.some.inj hc
      exact hscalars _ _ hk.1 hk.2
    · -- Scalars hold nothing, so that the way down ends here.
      obtain rfl := Option.some.inj hc'
      obtain ⟨s, hs⟩ := Option.isSome_iff_exists.mp (hk.1 x hx)
      cases x <;> cases hs
      rcases hxw.cases_head with rfl | ⟨_, ⟨_, hnone, _⟩, _⟩
      · cases hc
      · cases hnone
  | _ => cases hk

lemma Observation.leftAlone_of_keepsScalars {os : List Observation} {h : Heap}
    (hmeanwhile : os.Pairwise fun o o' => o.heap.keepsScalars o'.heap o.value = true)
    (hlater : ∀ o ∈ os, o.heap.keepsScalars h o.value = true) : LeftAlone os h :=
  ⟨hmeanwhile.imp Heap.untouched_of_keepsScalars,
    fun o ho => Heap.untouched_of_keepsScalars (hlater o ho)⟩

theorem fresh_lists_counted_as_returned :
    let m := Machine.initial 0 ⟨2, .kind .list, .ofTable [], 100⟩
    let e := Expr.list .builtin [.scalar .builtin (.number 1)]
    ∃ v m' os, ∃ r : OutputRecord,
      evaluate (.output .builtin .sample e none none) Environment.global none m = .ok v m' ∧
      os.length = 2 ∧ Observation.LeftAlone os m'.env.heap ∧
      r.aggregate m'.env.heap ∈ (m'.log.aggregate m'.env.heap).records ∧
      (r.aggregate m'.env.heap).outcome.Describes m'.env.heap os := by
  intro m e
  let site : Expr := .output .builtin .sample e none none
  obtain ⟨v, hv⟩ := Option.isSome_iff_exists.mp
    (by decide +kernel : (result? (evaluate site Environment.global none m)).isSome = true)
  obtain ⟨m', hm'⟩ := exists_of_result? hv
  obtain ⟨hd, n, before, r, behind, hopen, -, -, hkind, hlength, -, hlater⟩ :=
    (outputs_show_results_left_alone hm').1
  obtain rfl : n = after (opening evaluate site Environment.global .sample none
      (m.deeper (Nat.succ_pos 999))) := by
    rw [show m.deeper (Nat.succ_pos 999) = m.deeper hd from rfl, hopen, after_ok]
  obtain rfl : m' = after (evaluate site Environment.global none m) := by
    rw [hm', after_ok]
  rw [hkind] at hlength hlater
  have hshown := hlater _ (List.prefix_refl _)
  suffices hleft : Observation.LeftAlone _ _ from
    ⟨v, _, _, r, hm', hlength.trans (by decide +kernel), hleft, hshown.1, hshown.2 hleft⟩
  apply Observation.leftAlone_of_keepsScalars
  · decide +kernel
  · decide +kernel

theorem rolled_list_shows_later_change :
    let s := Session.start ⟨3, .kind .number, .sample, 0⟩ (.ofTable [])
    let shown (text : String) := (s.run "main" text).1.toOption.map
      (Report.records (s.run "main" text).2.heap)
    let counts (text : String) := (s.run "main" text).1.toOption.map fun records => records.map fun r =>
      match r.outcome with
      | .value _ => []
      | .distribution d => d.counters.map Counter.count
    shown "x = [1]; roll x as list" = some "x: [1]\n" ∧
      shown "x = [1]; roll x as list; x << [2]" = some "x: [1, 2]\n" ∧
      counts "a = []; sample (a << [1]) as list" = some [[3]] := by
  decide +kernel

end DiceLang

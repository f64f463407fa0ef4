import DiceLang.Proofs.Session

/-! An evaluation for a kind gives a value of that kind, and the records of an output for a kind show
nothing but values of that kind. -/

namespace DiceLang

def OutputRecord.Typed (r : OutputRecord) : Prop := r.outcome.OfKind r.kind

namespace RecordLog

variable {log log' log'' : RecordLog}

def Adds (log log' : RecordLog) : Prop :=
  ∃ added : Array OutputRecord, log'.records = log.records ++ added ∧ ∀ r ∈ added, r.Typed

lemma adds_of_eq (h : log'.records = log.records) : log.Adds log' := ⟨#[], by simpa using h, by simp⟩

lemma Adds.trans (h : log.Adds log') (h' : log'.Adds log'') : log.Adds log'' := by
  obtain ⟨added, heq, htyped⟩ := h
  obtain ⟨added', heq', htyped'⟩ := h'
  refine ⟨added ++ added', by rw [heq', heq, Array.append_assoc], fun r hr => ?_⟩
  rcases Array.mem_append.mp hr with hr | hr
  · exact htyped r hr
  · exact htyped' r hr

lemma Adds.typed (h : log.Adds log') (htyped : ∀ r ∈ log.records, r.Typed) :
    ∀ r ∈ log'.records, r.Typed := by
  obtain ⟨added, heq, hadded⟩ := h
  intro r hr
  rw [heq] at hr
  rcases Array.mem_append.mp hr with hr | hr
  · exact htyped r hr
  · exact hadded r hr

lemma Adds.typed_added (h : log.Adds log') {added : Array OutputRecord}
    (heq : log'.records = log.records ++ added) : ∀ r ∈ added, r.Typed := by
  obtain ⟨added', heq', htyped⟩ := h
  obtain rfl : added = added' := Array.append_inj_right (heq.symm.trans heq') rfl
  exact htyped

lemma adds_throw (log : RecordLog) (record : DiceRecord) : log.Adds (log.throw record) := by
  apply adds_of_eq
  rw [RecordLog.throw]
  split <;> rfl

lemma adds_finish (log : RecordLog) (name : String) (e : Expr) {kind : Option Kind} {outcome : Outcome}
    (h : outcome.OfKind kind) : log.Adds (log.finish name e kind outcome) := by
  rw [finish]
  cases log.current with
  | none => exact adds_of_eq rfl
  | some c =>
    refine ⟨#[⟨c.mode, name, e, kind, outcome, c.dice.toList⟩], by simp, fun r hr => ?_⟩
    obtain rfl := Array.mem_singleton.mp hr
    exact h

end RecordLog

lemma Outcome.ofKind_aggregate {kind : Option Kind} {o : Outcome} (ho : o.OfKind kind) (h : Heap) :
    (o.aggregate h).OfKind kind := by
  have haccumulate (total before : Nat) (cs : List Counter)
      (hcs : ∀ c ∈ cs, ∀ k ∈ kind, c.value.kind = k) :
      ∀ c ∈ Distribution.accumulate total before cs, ∀ k ∈ kind, c.value.kind = k := by
    induction cs generalizing before with
    | nil => exact List.forall_mem_nil _
    | cons c cs ih =>
      rw [List.forall_mem_cons] at hcs
      exact List.forall_mem_cons.mpr ⟨hcs.1, ih _ hcs.2⟩
  cases o with
  | value v => exact ho
  | distribution d =>
    show OfKind kind (.distribution (d.aggregate h))
    rw [Distribution.aggregate]
    split
    · exact ho
    · exact haccumulate _ _ _ fun c hc => ho c (List.mem_mergeSort.mp hc)

namespace Eval

variable {α β : Type}

def Recording (p : Eval α) : Prop := ∀ m : Machine, m.log.Adds (after (p m)).log

lemma recording_of_eq {p : Eval α} (h : ∀ m : Machine, (after (p m)).log.records = m.log.records) :
    Recording p := fun m => RecordLog.adds_of_eq (h m)

lemma Recording.bind {p : Eval α} {f : α → Eval β} (hp : Recording p)
    (hf : ∀ m a n, p m = .ok a n → Recording (f a)) : Recording (p >>= f) := by
  intro m
  have hadds := hp m
  simp only [Bind.bind, EStateM.bind]
  cases hr : p m with
  | ok a n =>
    rw [hr] at hadds
    exact hadds.trans (hf m a n hr n)
  | error e n =>
    rw [hr] at hadds
    exact hadds

lemma recording_onExit {log : RecordLog} {r : EStateM.Result Interrupt Machine α}
    (h : log.Adds (after r).log) {f : α → Machine → Machine} {g : Machine → Machine}
    (hf : ∀ a n, (f a n).log.records = n.log.records) (hg : ∀ n, (g n).log.records = n.log.records) :
    log.Adds (after (onExit f g r)).log := by
  cases r with
  | ok a n => exact h.trans (RecordLog.adds_of_eq (hf a n))
  | error e n => exact h.trans (RecordLog.adds_of_eq (hg n))

lemma Recording.nested {body : Eval α} (site : Expr) (h : Recording body) :
    Recording (nested site body) := by
  intro m
  rw [nested_run]
  split
  · exact recording_onExit (h _) (fun _ _ => rfl) fun _ => rfl
  · exact RecordLog.adds_of_eq rfl

lemma Recording.inScope {body : ScopeId → Eval α} (parent : ScopeId)
    (h : ∀ scope, Recording (body scope)) : Recording (inScope parent body) := by
  intro m
  rw [inScope_run]
  exact recording_onExit (h _ _) (fun _ _ => rfl) fun _ => rfl

lemma Recording.resolvedBy {answered : Except FetchError String → Eval MapRef} (site : Expr)
    (address : String) (h : ∀ answer, Recording (answered answer)) :
    Recording (resolvedBy site address answered) := by
  intro m
  rw [resolvedBy_run]
  split
  · exact RecordLog.adds_of_eq rfl
  · split
    · exact RecordLog.adds_of_eq rfl
    · exact recording_onExit (h _ _) (fun _ _ => rfl) fun _ => rfl

lemma Recording.reporting {body : Eval Outcome} {kind : Option Kind} (site : Expr) (mode : OutputMode)
    (name : String) (e : Expr) (h : Recording body) (hkind : Gives body (Outcome.OfKind kind)) :
    Recording (reporting site mode name e kind body) := by
  have hstart : Recording (start site mode) := by
    apply recording_of_eq
    intro m
    rw [start_run]
    split <;> rfl
  have hbody : Recording (orAbandon body) := fun m => recording_onExit (h m) (fun _ _ => rfl) fun _ => rfl
  refine hstart.bind fun _ _ _ _ => hbody.bind fun m outcome n ho => ?_
  rw [orAbandon_run] at ho
  obtain ⟨n', ho, -⟩ := ok_of_onExit ho
  exact fun m' => m'.log.adds_finish name e (hkind m outcome n' ho)

lemma trait_recording : Trait Recording where
  ret _ := recording_of_eq fun _ => rfl
  bind := Recording.bind
  fail _ _ := recording_of_eq fun _ => rfl
  unfinished _ := recording_of_eq fun _ => rfl
  read _ hf := fun m => hf m m
  onEnv _ := recording_of_eq fun _ => rfl
  newFunction _ _ _ := recording_of_eq fun _ => rfl
  throwDie _ := recording_of_eq fun _ => rfl
  shuffle vs := by
    apply recording_of_eq
    intro m
    rw [shuffle_run]
    split <;> rfl
  recordThrow _ _ := fun m => m.log.adds_throw _
  nested := Recording.nested
  inScope := Recording.inScope
  reporting := Recording.reporting
  resolved := Recording.resolvedBy

lemma asks_evaluate : (trait_recording.logic evaluate).Asks := trait_recording.asks

lemma serves_evaluate : (trait_recording.logic evaluate).Serves := trait_recording.serves

lemma recording_evaluate (e : Expr) (scope : ScopeId) (target : Option Kind) :
    Recording (evaluate e scope target) := (asks_evaluate e scope target trivial).1

lemma recording_convert (scope : ScopeId) (target : Option Kind) (v : Value) :
    Recording (convert evaluate scope target v) :=
  (Logic.convert serves_evaluate.toConverts scope target v.made_true).1

lemma recording_string (scope : ScopeId) (e : Expr) : Recording (string evaluate scope e) :=
  (Logic.string asks_evaluate scope trivial).1

lemma recording_observe (scope : ScopeId) (mode : OutputMode) (e : Expr) (kind : Option Kind) :
    Recording (observe evaluate scope mode e kind) :=
  (Logic.observe serves_evaluate.toConverts scope mode trivial kind).1

lemma keeps_observe (scope : ScopeId) (mode : OutputMode) (e : Expr) (kind : Option Kind) :
    Keeps (observe evaluate scope mode e kind) :=
  keeps_of_agree fun d => Logic.observe (agreeing_evaluate d).toConverts scope mode trivial kind

lemma kind_of_evaluate {e : Expr} {scope : ScopeId} {k : Kind} {m n : Machine} {v : Value}
    (h : evaluate e scope (some k) m = .ok v n) : v.kind = k :=
  ((asks_evaluate e scope (some k) trivial).2 m v n h).kind k rfl

lemma operand_iff {e : Expr} {scope : ScopeId} {k : Kind} {take : Value → Eval α} (make : α → Value)
    (hmake : ∀ v : Value, v.kind = k → ∃ a, v = make a) (htake : ∀ a, take (make a) = pure a)
    {m n : Machine} {a : α} :
    (evaluate e scope (some k) >>= take) m = .ok a n ↔
      evaluate e scope (some k) m = .ok (make a) n := by
  constructor
  · intro h
    obtain ⟨v, m', hv, ha⟩ := ok_of_bind h
    obtain ⟨b, rfl⟩ := hmake v (kind_of_evaluate hv)
    rw [htake] at ha
    cases ha
    exact hv
  · intro h
    rw [bind_run h, htake]
    rfl

lemma number_iff {e : Expr} {scope : ScopeId} {m m' : Machine} {n : Int64} :
    number evaluate scope e m = .ok n m' ↔
      evaluate e scope (some .number) m = .ok (.number n) m' := by
  apply operand_iff Value.number _ fun _ => rfl
  intro v hv
  cases v with
  | scalar s => cases s <;> cases hv; exact ⟨_, rfl⟩
  | list | map | function => cases hv

lemma boolean_iff {e : Expr} {scope : ScopeId} {m m' : Machine} {b : Bool} :
    boolean evaluate scope e m = .ok b m' ↔
      evaluate e scope (some .boolean) m = .ok (.boolean b) m' := by
  apply operand_iff Value.boolean _ fun _ => rfl
  intro v hv
  cases v with
  | scalar s => cases s <;> cases hv; exact ⟨_, rfl⟩
  | list | map | function => cases hv

lemma string_iff {e : Expr} {scope : ScopeId} {m m' : Machine} {s : String} :
    string evaluate scope e m = .ok s m' ↔
      evaluate e scope (some .string) m = .ok (.string s) m' := by
  apply operand_iff Value.string _ fun _ => rfl
  intro v hv
  cases v with
  | scalar s => cases s <;> cases hv; exact ⟨_, rfl⟩
  | list | map | function => cases hv

lemma list_iff {e : Expr} {scope : ScopeId} {m m' : Machine} {r : ListRef} :
    list evaluate scope e m = .ok r m' ↔ evaluate e scope (some .list) m = .ok (.list r) m' := by
  apply operand_iff Value.list _ fun _ => rfl
  intro v hv
  cases v with
  | scalar s => cases s <;> cases hv
  | list r => exact ⟨r, rfl⟩
  | map | function => cases hv

lemma ok_of_callExpr {site callee : Expr} {scope : ScopeId} {target : Option Kind}
    {positional : List Expr} {named : List (String × Expr)} {m m' : Machine} {v : Value}
    (h : callExpr evaluate site scope target callee positional named m = .ok v m') :
    ∃ i held f owner n, evaluate callee scope (some .function) m = .ok (.function i held f owner) n ∧
      (do
        let positional ← values evaluate scope positional
        let named ← namedValues evaluate scope named
        call evaluate site held f owner positional named target) n = .ok v m' := by
  obtain ⟨f, n, hf, hv⟩ := ok_of_bind h
  have hkind := kind_of_evaluate hf
  cases f with
  | scalar s => cases s <;> cases hkind
  | list | map => cases hkind
  | function i held f owner => exact ⟨i, held, f, owner, n, hf, hv⟩

lemma ok_of_evaluateOnce {again : Again} {e : Expr} {scope : ScopeId} {target : Option Kind}
    {m m' : Machine} {v : Value} (h : evaluateOnce again e scope target m = .ok v m') :
    ∃ (hd : m.depth.val < maxDepth) (w : Value) (n n' : Machine),
      native again e scope target (m.deeper hd) = .ok w n ∧
      convert again scope target w n = .ok v n' ∧ n'.shallower = m' := by
  rw [evaluateOnce, nested_run] at h
  split at h
  · obtain ⟨n', hbody, hm'⟩ := ok_of_onExit h
    obtain ⟨w, n, hw, hv⟩ := ok_of_bind hbody
    exact ⟨‹_›, w, n, n', hw, hv, hm'⟩
  · cases h

lemma ok_of_evaluate {e : Expr} {scope : ScopeId} {target : Option Kind} {m m' : Machine} {v : Value}
    (h : evaluate e scope target m = .ok v m') :
    ∃ (hd : m.depth.val < maxDepth) (w : Value) (n n' : Machine),
      native evaluate e scope target (m.deeper hd) = .ok w n ∧
      convert evaluate scope target w n = .ok v n' ∧ n'.shallower = m' := by
  rw [evaluate_eq] at h
  exact ok_of_evaluateOnce h

lemma ok_of_reporting {site e : Expr} {mode : OutputMode} {name : String} {kind : Option Kind}
    {body : Eval Outcome} {m m' : Machine} (hrecords : Recording body) (hkeeps : Keeps body)
    (h : reporting site mode name e kind body m = .ok () m') :
    ∃ n n' outcome r, start site mode m = .ok () n ∧ body n = .ok outcome n' ∧ m.log.Adds n'.log ∧
      m'.log.records = n'.log.records.push r ∧ r.expression = e ∧ r.kind = kind ∧
      r.outcome = outcome := by
  obtain ⟨_, n, hstart, hrest⟩ := ok_of_bind h
  obtain ⟨outcome, _, habandon, hfinish⟩ := ok_of_bind hrest
  obtain ⟨n', hbody, rfl⟩ := ok_of_onExit habandon
  have hadds := hrecords n
  have hkept := (hkeeps n).inFlight
  rw [hbody, after_ok] at hadds hkept
  have hstarted := hstart
  rw [start_run] at hstarted
  split at hstarted
  · cases hstarted
  · cases hstarted
    -- The output that was started is still in flight, so that its record is added.
    obtain ⟨c, hc⟩ := Option.isSome_iff_exists.mp hkept
    cases hfinish
    refine ⟨_, n', outcome, ⟨c.mode, name, e, kind, outcome, c.dice.toList⟩, hstart, hbody, hadds, ?_,
      rfl, rfl, rfl⟩
    show (n'.log.finish name e kind outcome).records = _
    rw [RecordLog.finish, hc]

lemma ok_of_output {site e : Expr} {scope : ScopeId} {mode : OutputMode} {type : Option OutputType}
    {name : Option Expr} {m m' : Machine}
    (h : output evaluate site scope mode e type name m = .ok () m') :
    ∃ (log : RecordLog) (r : OutputRecord), m.log.Adds log ∧ m'.log.records = log.records.push r ∧
      r.expression = e ∧ r.kind = (type.getD m.settings.defaultType).target := by
  have hreport {p : Eval String} (hp : Recording p) {kind : Option Kind} (h : (do
      let text ← p
      reporting site mode text e kind (observe evaluate scope mode e kind)) m = .ok () m') :
      ∃ (log : RecordLog) (r : OutputRecord), m.log.Adds log ∧
        m'.log.records = log.records.push r ∧ r.expression = e ∧ r.kind = kind := by
    obtain ⟨text, n, htext, h⟩ := ok_of_bind h
    obtain ⟨_, n', _, r, -, -, hlog, hr, he, hkind, -⟩ :=
      ok_of_reporting (recording_observe scope mode e kind) (keeps_observe scope mode e kind) h
    have hadds := hp m
    rw [htext] at hadds
    exact ⟨n'.log, r, hadds.trans hlog, hr, he, hkind⟩
  obtain ⟨_, _, ⟨⟩, h⟩ := ok_of_bind h
  cases name with
  | some n => exact hreport (recording_string scope n) h
  | none => exact hreport (recording_of_eq fun _ => rfl) h

lemma ok_of_evaluate_output {loc : Location} {mode : OutputMode} {e : Expr} {type : Option OutputType}
    {name : Option Expr} {scope : ScopeId} {target : Option Kind} {m m' : Machine} {v : Value}
    (h : evaluate (.output loc mode e type name) scope target m = .ok v m') :
    ∃ (before : Array OutputRecord) (r : OutputRecord) (behind : Array OutputRecord),
      m'.log.records = m.log.records ++ before ++ #[r] ++ behind ∧
      r.expression = e ∧ r.kind = (type.getD m.settings.defaultType).target ∧ r.Typed := by
  have htyped := recording_evaluate (.output loc mode e type name) scope target m
  rw [h, after_ok] at htyped
  obtain ⟨hd, w, n, n', hnative, hconvert, rfl⟩ := ok_of_evaluate h
  obtain ⟨_, n, houtput, ⟨⟩⟩ := ok_of_bind hnative
  obtain ⟨log, r, ⟨before, hbefore, -⟩, hr, he, hkind⟩ := ok_of_output houtput
  have hadds := recording_convert scope target .undefined n
  rw [hconvert] at hadds
  obtain ⟨behind, hbehind, -⟩ := hadds
  have hrecords : n'.log.records = m.log.records ++ before ++ #[r] ++ behind := by
    calc n'.log.records = n.log.records ++ behind := hbehind
      _ = (m.log.records ++ before).push r ++ behind := by rw [hr, hbefore]; rfl
      _ = m.log.records ++ before ++ #[r] ++ behind := by rw [Array.push_eq_append]
  refine ⟨before, r, behind, hrecords, he, hkind, ?_⟩
  rw [Array.append_assoc, Array.append_assoc] at hrecords
  exact htyped.typed_added hrecords r (by simp)

end Eval

namespace Session

open Eval

variable {α : Type} {s : Session}

lemma machine_perform (step : Eval α) : (s.perform step).2.machine = after (step s.machine) := by
  rw [perform]
  split
  next hstep =>
    rw [hstep, after_ok]
  next hstep =>
    rw [hstep, after_error]

lemma ok_of_perform {step : Eval α} {a : α} (h : (s.perform step).1 = .ok a) :
    step s.machine = .ok a (s.perform step).2.machine := by
  rw [perform] at h ⊢
  split at h
  · cases h
    assumption
  · cases h

lemma eval_eq {text : String} {program : List Expr} (hparse : parse "<eval>" text = .ok program) :
    s.eval text = s.perform (evaluateAll .undefined program) := by
  rw [eval, hparse]

lemma run_eq {source text : String} {program : List Expr} (hparse : parse source text = .ok program) :
    s.run source text = ({ s with machine := s.machine.onLog fun _ => .empty } : Session).perform (do
      let _ ← evaluateAll .undefined (withOutput s.defaultMode program)
      aggregateRecords) := by
  rw [run, hparse]

lemma run_malformed {source text : String} {errors : List SyntaxError}
    (hparse : parse source text = .error errors) : s.run source text =
      (.error (.malformed errors), { s with machine := s.machine.onLog fun _ => .empty }) := by
  rw [run, hparse]

def Typed (s : Session) : Prop := ∀ r ∈ s.machine.log.records, r.Typed

lemma Typed.perform (hs : s.Typed) {step : Eval α} (h : Recording step) : (s.perform step).2.Typed := by
  rw [Typed, machine_perform]
  exact (h s.machine).typed hs

lemma recording_evaluateAll (last : Value) (es : List Expr) : Recording (evaluateAll last es) := by
  induction es generalizing last with
  | nil => exact trait_recording.ret last
  | cons e es ih =>
    exact (recording_evaluate e Environment.global none).bind fun _ v _ _ => ih v

lemma Typed.eval (hs : s.Typed) (text : String) : (s.eval text).2.Typed := by
  rw [Session.eval]
  split
  · exact hs
  · exact hs.perform (recording_evaluateAll _ _)

lemma Typed.convert (hs : s.Typed) (target : Option Kind) (v : Value) :
    (s.convert target v).2.Typed :=
  hs.perform (recording_convert Environment.global target v)

lemma typed_aggregateRecords {m : Machine} (hm : ∀ r ∈ m.log.records, r.Typed) :
    ∀ r ∈ (after (aggregateRecords m)).log.records, r.Typed := by
  intro r hr
  obtain ⟨r', hr', rfl⟩ := Array.mem_map.mp hr
  exact Outcome.ofKind_aggregate (hm r' hr') m.env.heap

lemma typed_run (s : Session) (source text : String) : (s.run source text).2.Typed := by
  let cleared : Session := { s with machine := s.machine.onLog fun _ => .empty }
  have hcleared : ∀ r ∈ cleared.machine.log.records, r.Typed := by
    show ∀ r ∈ (#[] : Array OutputRecord), r.Typed
    simp
  cases hparse : parse source text with
  | error errors =>
    rw [run_malformed hparse]
    exact hcleared
  | ok program =>
    have hadds := recording_evaluateAll .undefined (withOutput s.defaultMode program) cleared.machine
    rw [run_eq hparse, Typed, machine_perform]
    simp only [Bind.bind, EStateM.bind]
    cases hr : evaluateAll .undefined (withOutput s.defaultMode program) cleared.machine with
    | ok v n =>
      rw [hr] at hadds
      exact typed_aggregateRecords (hadds.typed hcleared)
    | error e n =>
      rw [hr] at hadds
      exact hadds.typed hcleared

lemma records_of_run {source text : String} {records : List OutputRecord}
    (h : (s.run source text).1 = .ok records) :
    records = (s.run source text).2.machine.log.records.toList := by
  have haggregate (m n : Machine) (h : aggregateRecords m = .ok records n) :
      records = n.log.records.toList := by
    cases h
    rfl
  rw [run] at h ⊢
  dsimp only at h ⊢
  split at h
  · cases h
  · obtain ⟨v, n, -, hn⟩ := ok_of_bind (ok_of_perform h)
    exact haggregate n _ hn

lemma Reachable.typed (h : s.Reachable) : s.Typed := by
  induction h with
  | start options fetch =>
    show ∀ r ∈ (#[] : Array OutputRecord), r.Typed
    simp
  | eval text _ ih => exact ih.eval text
  | run source text _ _ => exact typed_run _ source text
  | convert target v _ ih => exact ih.convert target v

end Session

open Eval

/-- An evaluation for a kind gives a value of that kind: operands are never replaced by a default, and
what is called is a function. Outputs for a kind record values of that kind, whether the run goes on to
succeed or to fail, and so does every program of a session. -/
theorem typed_evaluation_sound :
    (∀ (e : Expr) (scope : ScopeId) (m : Machine),
      (∀ k v m', evaluate e scope (some k) m = .ok v m' → v.kind = k) ∧
      (∀ n m', number evaluate scope e m = .ok n m' ↔
        evaluate e scope (some .number) m = .ok (.number n) m') ∧
      (∀ b m', boolean evaluate scope e m = .ok b m' ↔
        evaluate e scope (some .boolean) m = .ok (.boolean b) m') ∧
      (∀ s m', string evaluate scope e m = .ok s m' ↔
        evaluate e scope (some .string) m = .ok (.string s) m') ∧
      (∀ r m', list evaluate scope e m = .ok r m' ↔
        evaluate e scope (some .list) m = .ok (.list r) m') ∧
      (∀ site target positional named v m',
        callExpr evaluate site scope target e positional named m = .ok v m' →
        ∃ i held f owner n, evaluate e scope (some .function) m = .ok (.function i held f owner) n ∧
          (do
            let positional ← values evaluate scope positional
            let named ← namedValues evaluate scope named
            call evaluate site held f owner positional named target) n = .ok v m') ∧
      (∀ target, m.log.Adds (after (evaluate e scope target m)).log) ∧
      ∀ loc mode type name target v m',
        evaluate (.output loc mode e type name) scope target m = .ok v m' →
        ∃ before r behind, m'.log.records = m.log.records ++ before ++ #[r] ++ behind ∧
          r.expression = e ∧ r.kind = (type.getD m.settings.defaultType).target ∧ r.Typed) ∧
    ∀ s : Session, s.Reachable → s.Typed ∧
      ∀ source text records, (s.run source text).1 = .ok records → ∀ r ∈ records, r.Typed := by
  refine ⟨fun e scope m => ?_, fun s hs => ⟨hs.typed, ?_⟩⟩
  · refine ⟨fun _ _ _ => kind_of_evaluate, fun _ _ => number_iff, fun _ _ => boolean_iff,
      fun _ _ => string_iff, fun _ _ => list_iff, fun _ _ _ _ _ _ => ok_of_callExpr, ?_, ?_⟩
    · exact fun target => recording_evaluate e scope target m
    · exact fun _ _ _ _ _ _ _ => ok_of_evaluate_output
  · intro source text records hrun r hr
    rw [Session.records_of_run hrun, Array.mem_toList_iff] at hr
    exact s.typed_run source text r hr

theorem functions_sampled_as_numbers :
    let m := Machine.initial 0 ⟨1, .kind .number, .ofTable [], 100⟩
    let e : Expr := .lambda .builtin [] (.lambda .builtin [] (.scalar .builtin (.string "7")))
    let sample : Expr := .output .builtin .sample e none none
    let s := Session.start ⟨5, .kind .number, .roll, 0⟩ (.ofTable [])
    let run := s.run "main" "sample fun() \x7b fun() \x7b \"7\" \x7d \x7d"
    (∃ m', number evaluate Environment.global e m = .ok 7 m' ∧
      evaluate e Environment.global (some .number) m = .ok (.number 7) m') ∧
    (∃ v m', evaluate sample Environment.global none m = .ok v m' ∧
      ∃ before r behind, m'.log.records = m.log.records ++ before ++ #[r] ++ behind ∧
        r.expression = e ∧ r.kind = some .number ∧ r.Typed) ∧
    ∃ records, run.1 = .ok records ∧ records.length = 1 ∧ ∀ r ∈ records, r.Typed := by
  intro m e sample s run
  have hsound := typed_evaluation_sound.1 e Environment.global m
  have hsession := typed_evaluation_sound.2 s (.start _ _)
  obtain ⟨m₁, hnumber⟩ := exists_of_result?
    (by decide +kernel : result? (number evaluate Environment.global e m) = some 7)
  obtain ⟨v, hv⟩ := Option.isSome_iff_exists.mp
    (by decide +kernel : (result? (evaluate sample Environment.global none m)).isSome = true)
  obtain ⟨m₂, hsample⟩ := exists_of_result? hv
  obtain ⟨records, hrun, hlength⟩ := Option.map_eq_some_iff.mp
    (by decide +kernel : run.1.toOption.map List.length = some 1)
  have hrun : run.1 = .ok records := by
    cases h : run.1 with
    | ok => rw [h] at hrun; cases hrun; rfl
    | error => rw [h] at hrun; cases hrun
  refine ⟨⟨m₁, hnumber, (hsound.2.1 7 m₁).mp hnumber⟩, ⟨v, m₂, hsample, ?_⟩, records, hrun, hlength, ?_⟩
  · exact hsound.2.2.2.2.2.2.2 .builtin .sample none none none v m₂ hsample
  · exact hsession.2 _ _ records hrun

end DiceLang

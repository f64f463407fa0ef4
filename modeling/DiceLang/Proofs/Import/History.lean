import DiceLang.Proofs.Eval.Typed
import DiceLang.Proofs.Import.Protocol

/-! Imports that fail, and the imports of a session from its start on. -/

namespace DiceLang

namespace Eval

open Moment

variable {m n : Machine} {address : String} {site e : Expr} {scope : ScopeId} {err : Interrupt}

structure Abandons (site : Expr) (address : String) (m : Machine) (err : Interrupt) (n : Machine) :
    Prop where
  unresolved : n.imports.get? address = none
  inProgress : n.imports.inProgress = m.imports.inProgress
  /-- Nothing was done if the address was in progress, and otherwise nothing behind the evaluation of
  its text. -/
  state : (address ∈ m.imports.inProgress ∧ n = m ∧
      err = .failed (site.error (.circularImport address))) ∨
    ∃ imports k, m.imports.begin? address = some imports ∧
      load evaluate site address { m with imports := imports } = .error err k ∧
      n = { k with imports := k.imports.abort address }
  retry : address ∉ m.imports.inProgress → ∃ imports, n.imports.begin? address = some imports ∧
    ∀ site, resolved evaluate site address n =
      onExit (fun r k => { k with imports := k.imports.complete address r })
        (fun k => { k with imports := k.imports.abort address })
        (load evaluate site address { n with imports := imports })

lemma traceable_loaded (site : Expr) (address : String) (answer : Except FetchError String) :
    Traceable (loaded evaluate site address answer) :=
  (Logic.loaded trait_traceable.serves.toConverts trivial address fun _ _ _ _ _ _ => trivial).1

lemma resolved_loads {imports : ImportCache} (site : Expr) (hget : m.imports.get? address = none)
    (hbegin : m.imports.begin? address = some imports) :
    resolved evaluate site address m =
      onExit (fun r k => { k with imports := k.imports.complete address r })
        (fun k => { k with imports := k.imports.abort address })
        (load evaluate site address { m with imports := imports }) := by
  rw [resolved_eq, resolvedBy_loads hget hbegin]
  rfl

lemma abandons_of_load {imports : ImportCache} {k : Machine} (hm : m.imports.Sound)
    (hget : m.imports.get? address = none) (hbegin : m.imports.begin? address = some imports)
    (hload : load evaluate site address { m with imports := imports } = .error err k) :
    Abandons site address m err { k with imports := k.imports.abort address } := by
  obtain ⟨t, ht⟩ := traceable_loaded site address (m.settings.fetch address) { m with imports := imports }
  have hproper := ht.proper (hm.begun hget hbegin)
  rw [show loaded evaluate site address (m.settings.fetch address) { m with imports := imports } =
    .error err k from hload, after_error] at hproper
  let left : Machine := { k with imports := k.imports.abort address }
  have hsettles : Settles m k left := hproper.settles hm hbegin rfl fun _ _ => rfl
  have hin : left.imports.inProgress = m.imports.inProgress := hsettles.inProgress
  -- The address was in progress until the end, and so its resolution was not completed.
  have hunresolved : left.imports.get? address = none := by
    apply hproper.sound_last.unresolved address
    rw [hproper.inProgress]
    obtain ⟨-, rfl⟩ := ImportCache.begin?_eq_some.mp hbegin
    exact List.mem_cons_self ..
  refine ⟨hunresolved, hin, .inr ⟨imports, k, hbegin, hload, rfl⟩, fun hnew => ?_⟩
  have hagain := ImportCache.begin?_eq_some.mpr ⟨hin ▸ hnew, rfl⟩
  exact ⟨_, hagain, fun site => resolved_loads site hunresolved hagain⟩

lemma abandons_of_resolved (hm : m.imports.Sound) (h : resolved evaluate site address m = .error err n) :
    Abandons site address m err n := by
  cases hget : m.imports.get? address with
  | some r =>
    rw [resolved_eq, resolvedBy_run, hget] at h
    cases h
  | none =>
    cases hbegin : m.imports.begin? address with
    | none =>
      have hin := ImportCache.begin?_eq_none.mp hbegin
      rw [resolved_eq, resolvedBy_circular hget hbegin] at h
      cases h
      exact ⟨hget, rfl, .inl ⟨hin, rfl, rfl⟩, fun hnew => absurd hin hnew⟩
    | some imports =>
      rw [resolved_loads site hget hbegin] at h
      cases hload : load evaluate site address { m with imports := imports } with
      | ok r k =>
        rw [hload] at h
        cases h
      | error e k =>
        rw [hload] at h
        cases h
        exact abandons_of_load hm hget hbegin hload

lemma ok_of_destination (scope : ScopeId) (space : Option String) (m : Machine) :
    ∃ r n, destination scope space m = .ok r n := by
  cases space with
  | none => exact ⟨_, _, rfl⟩
  | some name =>
    rw [destination, read_run]
    cases m.env.lookup scope name with
    | none => exact ⟨_, _, rfl⟩
    | some v => cases v <;> exact ⟨_, _, rfl⟩

lemma error_of_importing {space : Option String}
    (h : importing evaluate site scope space e m = .error err n) :
    string evaluate scope e m = .error err n ∨ ∃ address k, string evaluate scope e m = .ok address k ∧
      resolved evaluate site address k = .error err n := by
  rcases error_of_bind h with h | ⟨address, k, haddress, h⟩
  · exact .inl h
  · rcases error_of_bind h with h | ⟨source, k', -, h⟩
    · exact .inr ⟨address, k, haddress, h⟩
    · obtain ⟨target, k'', htarget⟩ := ok_of_destination scope space k'
      rw [bind_run htarget] at h
      cases h

lemma importing_fails (space : Option String)
    (h : string evaluate scope e m = .error err n ∨ ∃ address k,
      string evaluate scope e m = .ok address k ∧ resolved evaluate site address k = .error err n) :
    importing evaluate site scope space e m = .error err n := by
  rcases h with h | ⟨address, k, haddress, h⟩
  · exact bind_run_error h
  · rw [importing, bind_run haddress]
    exact bind_run_error h

lemma traceable_string (scope : ScopeId) (e : Expr) : Traceable (string evaluate scope e) :=
  (Logic.string trait_traceable.asks scope trivial).1

lemma traceable_importing (loc : Location) (scope : ScopeId) (space : Option String) (e : Expr) :
    Traceable (importing evaluate (.importing loc space e) scope space e) :=
  (Logic.importing trait_traceable.serves.toConverts trivial scope trivial).1

end Eval

namespace Session

open Eval Moment

variable {s s' : Session} {t h : List Moment} {fault : Option Fault}

inductive Course (s : Session) : List Moment → Option Fault → Session → Prop
  | eval {text : String} {program : List Expr} {t : List Moment} : parse "<eval>" text = .ok program →
      Passes (evaluateAll .undefined program) s.machine t →
      Course s t (fault? (s.eval text).1) (s.eval text).2
  | evalMalformed {text : String} {errors : List SyntaxError} : parse "<eval>" text = .error errors →
      Course s [] (fault? (s.eval text).1) (s.eval text).2
  | run {source text : String} {program : List Expr} {t : List Moment} :
      parse source text = .ok program →
      Passes (evaluateAll .undefined (withOutput s.defaultMode program))
        (s.machine.onLog fun _ => .empty) t →
      Course s t (fault? (s.run source text).1) (s.run source text).2
  | runMalformed {source text : String} {errors : List SyntaxError} :
      parse source text = .error errors →
      Course s [] (fault? (s.run source text).1) (s.run source text).2
  | convert {target : Option Kind} {v : Value} {t : List Moment} :
      Passes (Eval.convert evaluate Environment.global target v) s.machine t →
      Course s t (fault? (s.convert target v).1) (s.convert target v).2

inductive History : Session → List Moment → Prop
  | start (options : Options) (fetch : Fetch) : History (start options fetch) []
  | next {s s' : Session} {h t : List Moment} {fault : Option Fault} : History s h →
      Course s t fault s' → History s' (h ++ t)

lemma fault?_perform {α : Type} (step : Eval α) (address : String) :
    fault? (s.perform step).1 = some (.circularImport address) ↔ Circular address (step s.machine) := by
  rw [perform]
  cases step s.machine with
  | ok a n => exact iff_of_false (by rintro ⟨⟩) (not_circular_ok a n)
  | error reason n =>
    cases reason with
    | unfinished =>
      refine iff_of_false (by rintro ⟨⟩) ?_
      rintro ⟨_, _, ⟨⟩, _⟩
    | failed e =>
      constructor
      · intro h
        exact ⟨e, n, rfl, Option.some.inj h⟩
      · rintro ⟨_, _, ⟨⟩, he⟩
        exact congrArg some he

lemma imports_aggregated {α : Type} (p : Eval α) (m : Machine) :
    (after ((p >>= fun _ => aggregateRecords) m)).imports = (after (p m)).imports := by
  cases hr : p m with
  | ok a n =>
    rw [bind_run hr]
    rfl
  | error e n => rw [bind_run_error hr, after_error, after_error]

lemma circular_aggregated {α : Type} (p : Eval α) (m : Machine) (address : String) :
    Circular address ((p >>= fun _ => aggregateRecords) m) ↔ Circular address (p m) := by
  cases hr : p m with
  | ok a n =>
    rw [bind_run hr]
    exact iff_of_false (not_circular_ok _ _) (not_circular_ok _ _)
  | error e n =>
    rw [bind_run_error hr]
    exact circular_error

lemma Course.proper (hc : Course s t fault s') (hs : s.machine.imports.Sound) :
    Proper s.machine t s'.machine := by
  have hnothing {n : Machine} (hn : n.imports = s.machine.imports) : Proper s.machine [] n :=
    proper_of_still hs hn (List.forall_mem_nil _)
  cases hc with
  | eval hparse ht =>
    rw [eval_eq hparse, machine_perform]
    exact ht.proper hs
  | evalMalformed hparse =>
    rw [Session.eval, hparse]
    exact hnothing rfl
  | run hparse ht =>
    rw [run_eq hparse, machine_perform]
    exact (ht.proper hs).congr rfl (imports_aggregated _ _)
  | runMalformed hparse =>
    rw [run_malformed hparse]
    exact hnothing rfl
  | convert ht =>
    rw [Session.convert, machine_perform]
    exact ht.proper hs

lemma Course.circular_iff (hc : Course s t fault s') (hs : s.machine.imports.Sound) (address : String) :
    fault = some (.circularImport address) ↔ ∃ x ∈ t, x.Recurs address := by
  cases hc with
  | eval hparse ht =>
    rw [eval_eq hparse, fault?_perform]
    exact ht.circular_iff hs
  | evalMalformed hparse =>
    rw [Session.eval, hparse]
    exact iff_of_false (by rintro ⟨⟩) (by simp)
  | run hparse ht =>
    rw [run_eq hparse, fault?_perform, circular_aggregated]
    exact ht.circular_iff hs
  | runMalformed hparse =>
    rw [run_malformed hparse]
    exact iff_of_false (by rintro ⟨⟩) (by simp)
  | convert ht =>
    rw [Session.convert, fault?_perform]
    exact ht.circular_iff hs

lemma traceable_evaluateAll (last : Value) (es : List Expr) : Traceable (evaluateAll last es) := by
  induction es generalizing last with
  | nil => exact trait_traceable.ret last
  | cons e es ih =>
    exact (trait_traceable.asks e Environment.global none trivial).1.bind fun _ v _ _ => ih v

lemma exists_course_eval (s : Session) (text : String) :
    ∃ t, Course s t (fault? (s.eval text).1) (s.eval text).2 := by
  cases hparse : parse "<eval>" text with
  | error errors => exact ⟨_, .evalMalformed hparse⟩
  | ok program =>
    obtain ⟨t, ht⟩ := traceable_evaluateAll .undefined program s.machine
    exact ⟨t, .eval hparse ht⟩

lemma exists_course_run (s : Session) (source text : String) :
    ∃ t, Course s t (fault? (s.run source text).1) (s.run source text).2 := by
  cases hparse : parse source text with
  | error errors => exact ⟨_, .runMalformed hparse⟩
  | ok program =>
    obtain ⟨t, ht⟩ := traceable_evaluateAll .undefined (withOutput s.defaultMode program)
      (s.machine.onLog fun _ => .empty)
    exact ⟨t, .run hparse ht⟩

lemma History.proper (hh : History s h) : ∃ m : Machine, m.imports = .empty ∧ Proper m h s.machine := by
  have hempty : ImportCache.empty.Sound := ⟨List.nodup_nil, List.forall_mem_nil _⟩
  induction hh with
  | start options fetch =>
    exact ⟨_, rfl, proper_of_still (m := (Session.start options fetch).machine) hempty rfl
      (List.forall_mem_nil _)⟩
  | next _ hc ih =>
    obtain ⟨m, hm, hproper⟩ := ih
    exact ⟨m, hm, hproper.append (hc.proper hproper.sound_last)⟩

end Session

open Eval Moment Session

end DiceLang

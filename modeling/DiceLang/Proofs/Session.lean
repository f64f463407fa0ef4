import DiceLang.Proofs.Eval.Agreement
import DiceLang.Session

/-! Evaluation leaves the books of a run as they were, and so a session is idle between its programs. -/

namespace DiceLang

open Eval

variable {α : Type} {d : Nat} {again again' : Again} {m : Machine}

def evaluateOnce (again : Again) : Again := fun e scope target =>
  nested e do
    let v ← native again e scope target
    convert again scope target v

lemma agreeing_evaluateOnce (h : d < maxDepth → (agreeing (d + 1) again again').Asks) :
    (agreeing d (evaluateOnce again) (evaluateOnce again')).Asks := by
  intro e scope target _
  refine Agree.nested e fun hd => ?_
  have s := serves_agreeing (h hd)
  exact Agree.bind (Logic.native s trivial scope target) fun v hv =>
    Logic.convert s.toConverts scope target hv

lemma evaluateOnce_of_limit (hm : m.depth.val = maxDepth) (e : Expr) (scope : ScopeId)
    (target : Option Kind) :
    evaluateOnce again e scope target m = fail e (.recursionLimit maxDepth) m :=
  dif_neg (by omega)

lemma evaluate_eq_within (room : Nat) (hm : m.depth.val + room = maxDepth) (e : Expr) (scope : ScopeId)
    (target : Option Kind) : evaluate e scope target m = evaluateWithin room e scope target m := by
  have hroom : maxDepth - m.depth.val = room := by omega
  rw [evaluate, hroom]

lemma agreeing_evaluateWithin (room d : Nat) (hd : d + room = maxDepth) :
    (agreeing d (evaluateWithin room) evaluate).Asks := by
  induction room generalizing d with
  | zero =>
    intro e scope target _ m hm
    exact ⟨(evaluate_eq_within _ (hm ▸ hd) e scope target).symm, .refl m, nofun⟩
  | succ room ih =>
    intro e scope target _ m hm
    have honce := agreeing_evaluateOnce (fun _ => ih (d + 1) (by omega)) e scope target trivial m hm
    exact ⟨(evaluate_eq_within _ (hm ▸ hd) e scope target).symm, honce.kept, honce.result⟩

lemma agreeing_evaluate (d : Nat) : (agreeing d evaluate evaluate).Serves := by
  refine serves_agreeing ?_
  rintro e scope target - m rfl
  have hroom : m.depth.val + (maxDepth - m.depth.val) = maxDepth := by have := m.depth.isLt; omega
  obtain ⟨heq, hk, hQ⟩ := agreeing_evaluateWithin _ _ hroom e scope target trivial m rfl
  rw [heq] at hk hQ
  exact ⟨rfl, hk, hQ⟩

lemma keeps_evaluate (e : Expr) (scope : ScopeId) (target : Option Kind) :
    Keeps (evaluate e scope target) :=
  keeps_of_agree fun d => (agreeing_evaluate d).asks e scope target trivial

lemma evaluate_eq (e : Expr) (scope : ScopeId) (target : Option Kind) :
    evaluate e scope target = evaluateOnce evaluate e scope target := by
  funext m
  -- The room that is left never ends an evaluation: the depth does.
  cases hroom : maxDepth - m.depth.val with
  | zero =>
    have hm : m.depth.val = maxDepth := by have := m.depth.isLt; omega
    rw [evaluate_eq_within 0 hm, evaluateOnce_of_limit hm]
    rfl
  | succ room =>
    have hnext : (agreeing (m.depth.val + 1) (evaluateWithin room) evaluate).Asks :=
      agreeing_evaluateWithin room _ (by omega)
    rw [evaluate_eq_within (room + 1) (by omega)]
    exact (agreeing_evaluateOnce (fun _ => hnext) e scope target trivial m rfl).eq

lemma evaluate_eq_of_deeper
    (h : ∀ e scope target (n : Machine), n.depth.val = m.depth.val + 1 →
      again e scope target n = evaluate e scope target n)
    (e : Expr) (scope : ScopeId) (target : Option Kind) :
    evaluate e scope target m = evaluateOnce again e scope target m := by
  have hnext : (agreeing (m.depth.val + 1) evaluate again).Asks := by
    intro e scope target _ n hn
    have hn' := (agreeing_evaluate _).asks e scope target trivial n hn
    exact ⟨(h e scope target n hn).symm, hn'.kept, hn'.result⟩
  rw [evaluate_eq]
  exact (agreeing_evaluateOnce (fun _ => hnext) e scope target trivial m rfl).eq

namespace Session

structure Idle (s : Session) : Prop where
  depth : s.machine.depth = 0
  stack : s.machine.env.arena.stack = #[]
  inProgress : s.machine.imports.inProgress = []
  inFlight : s.machine.log.current = none

inductive Reachable : Session → Prop
  | start (options : Options) (fetch : Fetch) : Reachable (start options fetch)
  | eval {s : Session} (text : String) : Reachable s → Reachable (s.eval text).2
  | run {s : Session} (source text : String) : Reachable s → Reachable (s.run source text).2
  | convert {s : Session} (target : Option Kind) (v : Value) :
      Reachable s → Reachable (s.convert target v).2

lemma idle_start (options : Options) (fetch : Fetch) : (start options fetch).Idle :=
  ⟨rfl, Environment.stack_pushRoot _, rfl, rfl⟩

lemma Idle.of_kept {s : Session} (hs : s.Idle) (h : s.machine.Kept m) :
    Idle { s with machine := m } := by
  refine ⟨h.depth.trans hs.depth, h.stack.trans hs.stack, h.inProgress.trans hs.inProgress, ?_⟩
  have hflight : m.log.current.isSome = false := by rw [h.inFlight, hs.inFlight, Option.isSome_none]
  simpa using hflight

lemma Idle.perform {s : Session} (hs : s.Idle) {step : Eval α} (h : Keeps step) :
    (s.perform step).2.Idle := by
  have hk := h s.machine
  unfold Session.perform
  split
  next a m' hstep =>
    rw [hstep] at hk
    exact hs.of_kept hk
  next e m' hstep =>
    rw [hstep] at hk
    exact hs.of_kept hk

lemma agree_evaluateAll (last : Value) (es : List Expr) :
    Agree d (evaluateAll last es) (evaluateAll last es) fun _ => True := by
  induction es generalizing last with
  | nil => exact Keeps.agree (fun m => .refl m) fun _ _ _ _ => trivial
  | cons e es ih =>
    exact Agree.bind ((agreeing_evaluate d).asks e Environment.global none trivial) fun v _ => ih v

lemma Idle.eval {s : Session} (hs : s.Idle) (text : String) : (s.eval text).2.Idle := by
  unfold Session.eval
  split
  · exact hs
  · exact hs.perform (keeps_of_agree fun _ => agree_evaluateAll _ _)

lemma Idle.convert {s : Session} (hs : s.Idle) (target : Option Kind) (v : Value) :
    (s.convert target v).2.Idle :=
  hs.perform (keeps_of_agree fun d =>
    Logic.convert (agreeing_evaluate d).toConverts _ target v.made_true)

lemma Idle.run {s : Session} (hs : s.Idle) (source text : String) : (s.run source text).2.Idle := by
  have hempty : Idle { s with machine := s.machine.onLog fun _ => .empty } :=
    ⟨hs.depth, hs.stack, hs.inProgress, rfl⟩
  have haggregate : Keeps aggregateRecords := fun _ => ⟨rfl, rfl, rfl, rfl⟩
  unfold Session.run
  dsimp only
  split
  · exact hempty
  · refine hempty.perform (keeps_of_agree (Q := fun _ => True) fun d => ?_)
    exact (agree_evaluateAll _ _).bind fun _ _ => haggregate.agree fun _ _ _ _ => trivial

lemma Reachable.idle {s : Session} (h : s.Reachable) : s.Idle := by
  induction h with
  | start options fetch => exact idle_start options fetch
  | eval text _ ih => exact ih.eval text
  | run source text _ ih => exact ih.run source text
  | convert target v _ ih => exact ih.convert target v

end Session

/-- However an evaluation ends, the depth, the stack of scopes, the imports in progress and whether an
output is in flight are as before. Nested evaluations start exactly one deeper, and one that would pass
the limit fails and changes nothing. So nothing is under way in a session after a text or a program,
also a failed one. -/
theorem evaluate_restores_books :
    (∀ (e : Expr) (scope : ScopeId) (target : Option Kind) (m : Machine),
      m.Kept (after (evaluate e scope target m)) ∧
      (∀ again : Again,
        (∀ e scope target (n : Machine), n.depth.val = m.depth.val + 1 →
          again e scope target n = evaluate e scope target n) →
        evaluate e scope target m = evaluateOnce again e scope target m) ∧
      (m.depth.val = maxDepth →
        evaluate e scope target m = .error (.failed (e.error (.recursionLimit maxDepth))) m)) ∧
    ∀ s : Session, s.Reachable →
      (∀ text, (s.eval text).2.Idle) ∧ ∀ source text, (s.run source text).2.Idle := by
  refine ⟨fun e scope target m => ⟨keeps_evaluate e scope target m, ?_, ?_⟩, fun s hs => ⟨?_, ?_⟩⟩
  · exact fun again h => evaluate_eq_of_deeper h e scope target
  · intro hm
    rw [evaluate_eq, evaluateOnce_of_limit hm]
    rfl
  · exact fun text => hs.idle.eval text
  · exact fun source text => hs.idle.run source text

def Session.fault? : Except RunError α → Option Fault
  | .error (.interrupted (.failed e)) => some e.fault
  | _ => none

def Session.circular : Session :=
  start ⟨5, .kind .number, .sample, 0⟩ (.ofTable [("a", "import \"b\""), ("b", "import \"a\"")])

theorem circular_import_in_sample_leaves_idle :
    let run := Session.circular.run "main" "sample (fun() \x7b import \"a\" \x7d)()"
    let again : Again := fun e scope target n =>
      if n.depth.val = 1 then evaluate e scope target n else unfinished .loop n
    let e := Expr.var .builtin "x"
    let limit : Machine := { Session.circular.machine with depth := Fin.last maxDepth }
    (Session.fault? run.1 = some (.circularImport "a") ∧ run.2.Idle) ∧
    evaluate e Environment.global none Session.circular.machine =
      evaluateOnce again e Environment.global none Session.circular.machine ∧
    evaluate e Environment.global none limit =
      .error (.failed (e.error (.recursionLimit maxDepth))) limit := by
  refine ⟨⟨by decide +kernel, ?_⟩, ?_, ?_⟩
  · exact (evaluate_restores_books.2 _ (.start _ _)).2 _ _
  · exact (evaluate_restores_books.1 _ _ _ _).2.1 _ fun _ _ _ _ hn => if_pos hn
  · exact (evaluate_restores_books.1 _ _ _ _).2.2 rfl

end DiceLang

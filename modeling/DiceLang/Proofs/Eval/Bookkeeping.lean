import DiceLang.Eval.Evaluate
import DiceLang.Proofs.Scope.Stack

/-! What a step of a run leaves as it was, however the step ends: the depth, the stack of scopes, the
imports in progress, and whether an output is in flight. -/

namespace DiceLang

structure Machine.Kept (m m' : Machine) : Prop where
  depth : m'.depth = m.depth
  stack : m'.env.arena.stack = m.env.arena.stack
  inProgress : m'.imports.inProgress = m.imports.inProgress
  inFlight : m'.log.current.isSome = m.log.current.isSome

namespace Machine

lemma Kept.refl (m : Machine) : m.Kept m := ⟨rfl, rfl, rfl, rfl⟩

lemma Kept.trans {a b c : Machine} (h : a.Kept b) (h' : b.Kept c) : a.Kept c :=
  ⟨h'.depth.trans h.depth, h'.stack.trans h.stack, h'.inProgress.trans h.inProgress,
    h'.inFlight.trans h.inFlight⟩

end Machine

@[simp] lemma RecordLog.isSome_current_throw (log : RecordLog) (record : DiceRecord) :
    (log.throw record).current.isSome = log.current.isSome := by
  rw [throw]
  split
  · rfl
  · simp

@[simp] lemma RecordLog.current_finish (log : RecordLog) (name : String) (e : Expr) (kind : Option Kind)
    (outcome : Outcome) : (log.finish name e kind outcome).current = none := by
  rw [finish]
  split
  · assumption
  · rfl

namespace Eval

variable {α β : Type}

def after : EStateM.Result Interrupt Machine α → Machine
  | .ok _ m => m
  | .error _ m => m

@[simp] lemma after_ok (a : α) (m : Machine) : after (.ok a m) = m := rfl

@[simp] lemma after_error (e : Interrupt) (m : Machine) :
    after (.error e m : EStateM.Result Interrupt Machine α) = m := rfl

def Keeps (p : Eval α) : Prop := ∀ m : Machine, m.Kept (after (p m))

lemma keeps_onEnv {f : Environment → α × Environment}
    (h : ∀ env, (f env).2.arena.stack = env.arena.stack) : Keeps (modifyGet fun m => m.onEnv f) :=
  fun m => ⟨rfl, h m.env, rfl, rfl⟩

lemma keeps_define (scope : ScopeId) (name : String) (v : Value) : Keeps (define scope name v) :=
  keeps_onEnv fun env => env.stack_define scope name v

lemma keeps_newFunction (scope : ScopeId) (f : Lambda) (owner : Value) :
    Keeps (newFunction scope f owner) := fun m => ⟨rfl, m.env.stack_capture scope, rfl, rfl⟩

lemma keeps_recordThrow (die : Value) (results : List Value) : Keeps (recordThrow die results) :=
  fun m => ⟨rfl, rfl, rfl, m.log.isSome_current_throw _⟩

lemma kept_release {m m' : Machine} (parent : ScopeId)
    (h : Machine.Kept { m with env := (m.env.enter parent).2 } m') :
    m.Kept (release (m.env.enter parent).1.2 m') := by
  obtain ⟨hstack, hmark⟩ := m.env.stack_enter parent
  refine ⟨h.depth, ?_, h.inProgress, h.inFlight⟩
  have hm' : m'.env.arena.stack = m.env.arena.stack.push (m.env.enter parent).1.1 :=
    h.stack.trans hstack
  apply Array.toList_inj.mp
  calc (m'.env.arena.release (m.env.enter parent).1.2).stack.toList
      = m'.env.arena.stack.toList.take m.env.arena.stack.size := by rw [Arena.stack_release, hmark]
    _ = m.env.arena.stack.toList := by rw [hm', Array.toList_push]; simp

lemma kept_shallower {m m' : Machine} (hd : m.depth.val < maxDepth) (h : (m.deeper hd).Kept m') :
    m.Kept m'.shallower := by
  refine ⟨?_, h.stack, h.inProgress, h.inFlight⟩
  apply Fin.ext
  show m'.depth.val - 1 = m.depth.val
  rw [h.depth]
  exact Nat.add_sub_cancel ..

end Eval

end DiceLang

import DiceLang.Scope.Environment
import Mathlib

/-! The stack of scopes: only entering a scope adds to it, and only a release takes from it. -/

namespace DiceLang

namespace Arena

@[simp] lemma stack_setSlot (a : Arena) (id : ScopeId) (s : Option Scope) :
    (a.setSlot id s).stack = a.stack := rfl

@[simp] lemma stack_hold (a : Arena) (id : ScopeId) : (a.hold id).stack = a.stack := by
  rw [hold]
  split <;> rfl

@[simp] lemma stack_unhold (a : Arena) (id : ScopeId) : (a.unhold id).stack = a.stack := by
  rw [unhold]
  split <;> rfl

@[simp] lemma stack_holdParent (a : Arena) (s : Scope) : (a.holdParent s).stack = a.stack := by
  rw [holdParent]
  split
  · split <;> simp
  · rfl

@[simp] lemma stack_unholdParent (a : Arena) (s : Scope) : (a.unholdParent s).stack = a.stack := by
  rw [unholdParent]
  split
  · split <;> simp
  · rfl

@[simp] lemma stack_allocate (a : Arena) (parent : Option ScopeId) (bindings : MapRef) :
    (a.allocate parent bindings).2.stack = a.stack := by
  rw [allocate]
  dsimp only
  split <;> simp

@[simp] lemma stack_drop (a : Arena) (c : Capture) : (a.drop c).stack = a.stack := by
  rw [drop]
  split <;> simp

@[simp] lemma stack_foldl_drop (cs : List Capture) (a : Arena) : (cs.foldl drop a).stack = a.stack := by
  induction cs generalizing a with
  | nil => rfl
  | cons c cs ih => rw [List.foldl_cons, ih, stack_drop]

@[simp] lemma stack_freeSlot (a : Arena) (id : ScopeId) : (a.freeSlot id).stack = a.stack := by
  rw [freeSlot]
  split <;> simp

@[simp] lemma stack_settle (a : Arena) (id : ScopeId) : (a.settle id).stack = a.stack := by
  rw [settle]
  split <;> simp

lemma stack_foldl_settle (ids : List ScopeId) (a : Arena) :
    (ids.foldl settle a).stack = a.stack := by
  induction ids generalizing a with
  | nil => rfl
  | cons id ids ih => rw [List.foldl_cons, ih, stack_settle]

@[simp] lemma stack_sweep (a : Arena) : a.sweep.stack = a.stack := by
  have rounds (n : Nat) (a : Arena) : (sweepRounds n a).stack = a.stack := by
    induction n generalizing a with
    | zero => rfl
    | succ n ih =>
      have once : a.sweepOnce.stack = a.stack := by
        rw [sweepOnce, ← Array.foldl_toList, stack_foldl_settle]
      rw [sweepRounds]
      split
      · exact once
      · rw [ih, once]
  exact rounds _ _

lemma stack_unwind (n : Nat) (a : Arena) :
    (unwind n a).stack.toList = a.stack.toList.take (a.stack.size - n) := by
  induction n generalizing a with
  | zero => simp [unwind]
  | succ n ih =>
    rw [unwind]
    cases h : a.stack.back? with
    | none =>
      have hempty : a.stack = #[] := Array.back?_eq_none_iff.mp h
      simp [hempty]
    | some _ =>
      rw [ih, stack_settle, Array.toList_pop, Array.size_pop, List.dropLast_eq_take, List.take_take,
        Array.length_toList]
      congr 1
      omega

lemma stack_release (a : Arena) (mark : Nat) :
    (a.release mark).stack.toList = a.stack.toList.take mark := by
  have hunwind : (unwind (a.stack.size - mark) a).stack.toList = a.stack.toList.take mark := by
    rw [stack_unwind]
    by_cases h : mark ≤ a.stack.size
    · rw [Nat.sub_sub_self h]
    · rw [List.take_of_length_le, List.take_of_length_le] <;> simp <;> omega
  rw [release]
  dsimp only
  split
  · rw [stack_sweep]
    exact hunwind
  · exact hunwind

end Arena

namespace Environment

@[simp] lemma arena_define (env : Environment) (id : ScopeId) (name : String) (v : Value) :
    (env.define id name v).arena = env.arena := by
  rw [define]
  split <;> rfl

@[simp] lemma arena_set (env : Environment) (id : ScopeId) (name : String) (v : Value) :
    (env.set id name v).arena = env.arena := by
  rw [set]
  split
  · rfl
  · exact arena_define env id name v

lemma stack_define (env : Environment) (id : ScopeId) (name : String) (v : Value) :
    (env.define id name v).arena.stack = env.arena.stack := by
  rw [arena_define]

lemma stack_set (env : Environment) (id : ScopeId) (name : String) (v : Value) :
    (env.set id name v).arena.stack = env.arena.stack := by
  rw [arena_set]

@[simp] lemma stack_bindings (env : Environment) (id : ScopeId) :
    (env.bindings id).2.arena.stack = env.arena.stack := by
  rw [bindings]
  split <;> rfl

@[simp] lemma stack_capture (env : Environment) (id : ScopeId) :
    (env.capture id).2.arena.stack = env.arena.stack := Arena.stack_hold _ _

@[simp] lemma stack_pushRoot (env : Environment) :
    env.pushRoot.2.arena.stack = env.arena.stack := Arena.stack_allocate _ _ _

lemma stack_enter (env : Environment) (parent : ScopeId) :
    (env.enter parent).2.arena.stack = env.arena.stack.push (env.enter parent).1.1 ∧
      (env.enter parent).1.2 = env.arena.stack.size := by
  have hpush : (env.push (some parent)).2.arena.stack =
      env.arena.stack.push (env.push (some parent)).1 := by
    show (Arena.allocate _ _ _).2.stack.push _ = _
    rw [Arena.stack_allocate]
    rfl
  refine ⟨hpush, ?_⟩
  show (env.push (some parent)).2.arena.stack.size - 1 = _
  rw [hpush, Array.size_push, Nat.add_sub_cancel]

end Environment

end DiceLang

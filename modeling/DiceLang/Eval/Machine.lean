import DiceLang.Dice
import DiceLang.Eval.Fault
import DiceLang.Import.Cache
import DiceLang.Record
import DiceLang.Scope.Environment

/-! The state of a run and the steps that read or change it. A run that fails keeps the state it
reached. -/

namespace DiceLang

def maxDepth : Nat := 1000

/-- No list has more items: they take 24 bytes each, and no more than 2 ^ 63 - 1 bytes can be had. -/
def maxItems : Nat := ((1 <<< 63) - 1) / 24

structure Settings where
  sampleSize : Nat
  defaultType : OutputType
  fetch : Fetch
  /-- Bounds what nothing in a program bounds: rounds of a loop without a limit, attempts at a random
  draw, and the nesting of values that change while they are walked. -/
  budget : Nat

structure Machine where
  env : Environment
  identity : Nat
  generator : Generator
  log : RecordLog
  imports : ImportCache
  settings : Settings
  depth : Fin (maxDepth + 1)

abbrev Eval := EStateM Interrupt Machine

/-- How nested expressions are evaluated: in a scope, and converted to a kind if one is given. -/
abbrev Again := Expr → ScopeId → Option Kind → Eval Value

namespace Machine

def initial (seed : UInt64) (settings : Settings) : Machine :=
  ⟨.initial, 0, .ofSeed seed, .empty, .empty, settings, 0⟩

def onEnv {α : Type} (m : Machine) (f : Environment → α × Environment) : α × Machine :=
  match m with
  | ⟨env, identity, generator, log, imports, settings, depth⟩ =>
    let (a, env) := f env
    (a, ⟨env, identity, generator, log, imports, settings, depth⟩)

def onHeap {α : Type} (m : Machine) (f : Heap → α × Heap) : α × Machine :=
  m.onEnv fun env =>
    match env with
    | ⟨heap, arena⟩ =>
      let (a, heap) := f heap
      (a, ⟨heap, arena⟩)

def onLog (m : Machine) (f : RecordLog → RecordLog) : Machine :=
  match m with
  | ⟨env, identity, generator, log, imports, settings, depth⟩ =>
    ⟨env, identity, generator, f log, imports, settings, depth⟩

def deeper (m : Machine) (h : m.depth.val < maxDepth) : Machine :=
  { m with depth := ⟨m.depth + 1, Nat.succ_lt_succ h⟩ }

def shallower (m : Machine) : Machine :=
  { m with depth := ⟨m.depth - 1, Nat.lt_of_le_of_lt (Nat.sub_le ..) m.depth.isLt⟩ }

end Machine

namespace Eval

def fail {α : Type} (site : Expr) (fault : Fault) : Eval α := throw (.failed (site.error fault))

def unfinished {α : Type} (w : Work) : Eval α := throw (.unfinished (w := w))

def budget : Eval Nat := return (← get).settings.budget

def nested {α : Type} (site : Expr) (body : Eval α) : Eval α := fun m =>
  if h : m.depth.val < maxDepth then
    match body (m.deeper h) with
    | .ok a m => .ok a m.shallower
    | .error e m => .error e m.shallower
  else fail site (.recursionLimit maxDepth) m

/-! ### The heap -/

def items (r : ListRef) : Eval (List Value) := return (← get).env.heap.items r

def entries (r : MapRef) : Eval (List (String × Value)) := return (← get).env.heap.entries r

def contents (c : Container) : Eval (List Value) := return (← get).env.heap.contents c

def setItems (r : ListRef) (items : List Value) : Eval Unit :=
  modifyGet fun m => m.onHeap fun h => ((), h.setList r items)

def setEntries (r : MapRef) (entries : List (String × Value)) : Eval Unit :=
  modifyGet fun m => m.onHeap fun h => ((), h.setMap r entries)

def makeRoom (items : Nat) : Eval Unit :=
  if items ≤ maxItems then return () else unfinished (.makeRoom items)

def newList (items : List Value) : Eval Value :=
  modifyGet fun m => m.onHeap fun h =>
    let (r, h) := h.newList items
    (.list r, h)

def newMap (entries : List (String × Value)) : Eval Value :=
  modifyGet fun m => m.onHeap fun h =>
    let (r, h) := h.newMap entries
    (.map r, h)

def same (a b : Value) : Eval Bool := return (← get).env.heap.same a b

/-! ### Variables and scopes -/

def valueOf (scope : ScopeId) (name : String) : Eval Value := return (← get).env.get scope name

def define (scope : ScopeId) (name : String) (v : Value) : Eval Unit :=
  modifyGet fun m => m.onEnv fun env => ((), env.define scope name v)

def setVariable (scope : ScopeId) (name : String) (v : Value) : Eval Unit :=
  modifyGet fun m => m.onEnv fun env => ((), env.set scope name v)

def bindings (scope : ScopeId) : Eval MapRef :=
  modifyGet fun m => m.onEnv fun env => env.bindings scope

def release (mark : Nat) (m : Machine) : Machine := (m.onEnv fun env => ((), env.release mark)).2

def inScope {α : Type} (parent : ScopeId) (body : ScopeId → Eval α) : Eval α := fun m =>
  match m.onEnv fun env => env.enter parent with
  | ((scope, mark), m) =>
    match body scope m with
    | .ok a m => .ok a (release mark m)
    | .error e m => .error e (release mark m)

/-- The function takes a hold on its scope and keeps it. Whether and when such a hold is given up makes no
difference to what is evaluated: this is shown of any collector. -/
def newFunction (scope : ScopeId) (f : Lambda) (owner : Value) : Eval Value :=
  modifyGet fun m =>
    match m.onEnv fun env => env.capture scope with
    | (_, ⟨env, identity, generator, log, imports, settings, depth⟩) =>
      (.function identity scope f owner,
        ⟨env, identity + 1, generator, log, imports, settings, depth⟩)

/-! ### Dice and records -/

def isSampling : Eval Bool := return (← get).log.isSampling

def recordThrow (die : Value) (results : List Value) : Eval Unit :=
  modify fun m => m.onLog fun log => log.throw ⟨die, results⟩

def throwDie (die : Value) : Eval Throw :=
  modifyGet fun m =>
    match m with
    | ⟨⟨heap, arena⟩, identity, generator, log, imports, settings, depth⟩ =>
      let (outcome, heap, generator) := Dice.throw settings.budget die heap generator
      (outcome, ⟨⟨heap, arena⟩, identity, generator, log, imports, settings, depth⟩)

def shuffle (items : List Value) : Eval (List Value) := do
  let m ← get
  match m.generator.shuffle m.settings.budget items with
  | some (items, generator) =>
    set { m with generator := generator }
    return items
  | none => unfinished .draw

end Eval

end DiceLang

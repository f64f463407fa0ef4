import DiceLang.Value.Basic

/-! The arena of scopes. Scopes live in slots that are used again. A scope that leaves the stack is freed,
unless something holds it: then it is parked until a sweep finds that nothing does. -/

namespace DiceLang

/-- A hold on a scope. It is idle if there was no scope in the slot when it was taken. -/
structure Capture where
  scope : ScopeId
  idle : Bool
deriving DecidableEq, Inhabited

structure Scope where
  parent : Option ScopeId
  depth : Nat
  bindings : MapRef
  holds : Nat
  /-- Whether this scope holds its parent: the parent was there when the scope was made. -/
  anchored : Bool
  /-- The captures of the functions that are values of its variables. They go with the scope. -/
  owned : List Capture
deriving Inhabited

structure Arena where
  slots : Array (Option Scope)
  /-- Slots without a scope, the one to be used next last. -/
  free : Array Nat
  stack : Array ScopeId
  parked : Array ScopeId
  sweepAt : Nat
deriving Inhabited

namespace Arena

def leastSweep : Nat := 64

def empty : Arena := ⟨#[], #[], #[], #[], leastSweep⟩

def scope? (a : Arena) (id : ScopeId) : Option Scope := a.slots.getD id.index none

def live (a : Arena) : Nat := a.slots.size - a.free.size

def setSlot (a : Arena) (id : ScopeId) (s : Option Scope) : Arena :=
  { a with slots := a.slots.setIfInBounds id.index s }

def hold (a : Arena) (id : ScopeId) : Arena :=
  match a.scope? id with
  | some s => a.setSlot id (some { s with holds := s.holds + 1 })
  | none => a

def unhold (a : Arena) (id : ScopeId) : Arena :=
  match a.scope? id with
  | some s => a.setSlot id (some { s with holds := s.holds - 1 })
  | none => a

def isHeld (a : Arena) (id : ScopeId) : Bool := (a.scope? id).any fun s => 0 < s.holds

def holdParent (a : Arena) (s : Scope) : Arena :=
  match s.parent with
  | some p => if s.anchored then a.hold p else a
  | none => a

def unholdParent (a : Arena) (s : Scope) : Arena :=
  match s.parent with
  | some p => if s.anchored then a.unhold p else a
  | none => a

def child (a : Arena) (parent : Option ScopeId) (bindings : MapRef) : Scope :=
  match parent.bind a.scope? with
  | some above => ⟨parent, above.depth + 1, bindings, 0, true, []⟩
  | none => ⟨parent, 0, bindings, 0, false, []⟩

def allocate (a : Arena) (parent : Option ScopeId) (bindings : MapRef) : ScopeId × Arena :=
  let s := a.child parent bindings
  let a := a.holdParent s
  match a.free.back? with
  | some i => (⟨i⟩, { a.setSlot ⟨i⟩ (some s) with free := a.free.pop })
  | none => (⟨a.slots.size⟩, { a with slots := a.slots.push (some s) })

def capture (a : Arena) (id : ScopeId) : Capture × Arena :=
  (⟨id, (a.scope? id).isNone⟩, a.hold id)

def duplicate (a : Arena) (c : Capture) : Arena := if c.idle then a else a.hold c.scope

def drop (a : Arena) (c : Capture) : Arena := if c.idle then a else a.unhold c.scope

/-- Variables of the scope take over a capture. If there is no scope, it is dropped. -/
def entrust (a : Arena) (id : ScopeId) (c : Capture) : Arena :=
  match a.scope? id with
  | some s => a.setSlot id (some { s with owned := c :: s.owned })
  | none => a.drop c

def reclaim (a : Arena) (id : ScopeId) (n : Nat) : Option Capture × Arena :=
  match a.scope? id with
  | some s => (s.owned[n]?, a.setSlot id (some { s with owned := s.owned.eraseIdx n }))
  | none => (none, a)

/-- The scope goes, with its hold on its parent and with the captures that its variables own. -/
def freeSlot (a : Arena) (id : ScopeId) : Arena :=
  match a.scope? id with
  | none => a
  | some s =>
    let a := a.setSlot id none
    s.owned.foldl drop ({ a with free := a.free.push id.index }.unholdParent s)

def push (a : Arena) (parent : Option ScopeId) (bindings : MapRef) : ScopeId × Arena :=
  let (id, a) := a.allocate parent bindings
  (id, { a with stack := a.stack.push id })

def settle (a : Arena) (id : ScopeId) : Arena :=
  if a.isHeld id then { a with parked := a.parked.push id } else a.freeSlot id

def sweepOnce (a : Arena) : Arena := a.parked.foldl settle { a with parked := #[] }

def sweepRounds : Nat → Arena → Arena
  | 0, a => a
  | rounds + 1, a =>
    let parked := a.parked.size
    let a := a.sweepOnce
    if a.parked.size = parked then a else sweepRounds rounds a

/-- Frees the parked scopes that nothing holds. Every round but the last frees one of them. -/
def sweep (a : Arena) : Arena := sweepRounds (a.parked.size + 1) a

def mark (a : Arena) : Nat := a.stack.size

def unwind : Nat → Arena → Arena
  | 0, a => a
  | n + 1, a =>
    match a.stack.back? with
    | none => a
    | some id => unwind n ({ a with stack := a.stack.pop }.settle id)

def release (a : Arena) (mark : Nat) : Arena :=
  let a := unwind (a.stack.size - mark) a
  if a.sweepAt ≤ a.parked.size then
    let a := a.sweep
    { a with sweepAt := max leastSweep (a.parked.size * 2) }
  else a

def parent (a : Arena) (id : ScopeId) : Option ScopeId := (a.scope? id).bind Scope.parent

def depth (a : Arena) (id : ScopeId) : Nat := ((a.scope? id).map Scope.depth).getD 0

def rootWithin (a : Arena) : Nat → ScopeId → ScopeId
  | 0, id => id
  | n + 1, id =>
    match a.parent id with
    | some p => a.rootWithin n p
    | none => id

def root (a : Arena) (id : ScopeId) : ScopeId := a.rootWithin a.slots.size id

def chainWithin (a : Arena) : Nat → ScopeId → List Scope
  | 0, _ => []
  | n + 1, id =>
    match a.scope? id with
    | none => []
    | some s =>
      match s.parent with
      | some p => s :: a.chainWithin n p
      | none => [s]

def chain (a : Arena) (id : ScopeId) : List Scope := a.chainWithin a.slots.size id

end Arena

end DiceLang

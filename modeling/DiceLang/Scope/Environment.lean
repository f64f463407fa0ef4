import DiceLang.Scope.Arena

/-! Variables. The bindings of a scope are a map on the heap, so programs can hold them as a value. -/

namespace DiceLang

structure Environment where
  heap : Heap
  arena : Arena
deriving Inhabited

namespace Environment

def global : ScopeId := ⟨0⟩

def push (env : Environment) (parent : Option ScopeId) : ScopeId × Environment :=
  let (bindings, heap) := env.heap.newMap []
  let (id, arena) := env.arena.push parent bindings
  (id, ⟨heap, arena⟩)

def enter (env : Environment) (parent : ScopeId) : (ScopeId × Nat) × Environment :=
  match env.push (some parent) with
  | (id, env) => ((id, env.arena.mark - 1), env)

def pushRoot (env : Environment) : ScopeId × Environment :=
  let (bindings, heap) := env.heap.newMap []
  let (id, arena) := env.arena.allocate none bindings
  (id, ⟨heap, arena⟩)

def initial : Environment := (pushRoot ⟨.empty, .empty⟩).2

/-- The bindings of a scope, fresh ones if there is no scope. -/
def bindings (env : Environment) (id : ScopeId) : MapRef × Environment :=
  match env.arena.scope? id with
  | some s => (s.bindings, env)
  | none =>
    let (r, heap) := env.heap.newMap []
    (r, ⟨heap, env.arena⟩)

def value? (env : Environment) (name : String) (s : Scope) : Option Value :=
  Entries.get? (env.heap.entries s.bindings) name

def lookup (env : Environment) (id : ScopeId) (name : String) : Option Value :=
  (env.arena.chain id).findSome? (env.value? name)

def get (env : Environment) (id : ScopeId) (name : String) : Value :=
  (env.lookup id name).getD .undefined

def putIn (env : Environment) (s : Scope) (name : String) (v : Value) : Environment :=
  let entries := Entries.put (env.heap.entries s.bindings) name v
  ⟨env.heap.setMap s.bindings entries, env.arena⟩

def define (env : Environment) (id : ScopeId) (name : String) (v : Value) : Environment :=
  match env.arena.scope? id with
  | some s => env.putIn s name v
  | none => env

def set (env : Environment) (id : ScopeId) (name : String) (v : Value) : Environment :=
  match (env.arena.chain id).find? fun s => (env.value? name s).isSome with
  | some s => env.putIn s name v
  | none => env.define id name v

def capture (env : Environment) (id : ScopeId) : Capture × Environment :=
  let (c, arena) := env.arena.capture id
  (c, ⟨env.heap, arena⟩)

def duplicate (env : Environment) (c : Capture) : Environment := ⟨env.heap, env.arena.duplicate c⟩

def drop (env : Environment) (c : Capture) : Environment := ⟨env.heap, env.arena.drop c⟩

def entrust (env : Environment) (id : ScopeId) (c : Capture) : Environment :=
  ⟨env.heap, env.arena.entrust id c⟩

def reclaim (env : Environment) (id : ScopeId) (n : Nat) : Option Capture × Environment :=
  let (c, arena) := env.arena.reclaim id n
  (c, ⟨env.heap, arena⟩)

def release (env : Environment) (mark : Nat) : Environment := ⟨env.heap, env.arena.release mark⟩

def sweep (env : Environment) : Environment := ⟨env.heap, env.arena.sweep⟩

def churn (env : Environment) (id : ScopeId) : Nat → Environment
  | 0 => env
  | n + 1 =>
    match env.enter id with
    | ((inner, mark), env) =>
      let (c, env) := env.capture inner
      ((env.release mark).drop c).churn id n

end Environment

end DiceLang

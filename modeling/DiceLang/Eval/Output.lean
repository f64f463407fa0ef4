import DiceLang.Eval.Convert

/-! Outputs: one evaluation for a roll, many for a sample. -/

namespace DiceLang.Eval

def label (scope : ScopeId) (e : Expr) : Eval String := do
  let env := (← get).env
  return e.label (fun name => (env.lookup scope name).bind Value.scalar?) .sequence

def count (v : Value) (d : Distribution) : Eval Distribution := return d.incr (← get).env.heap v

def sample (again : Again) (scope : ScopeId) (e : Expr) (kind : Option Kind) :
    Nat → Distribution → Eval Distribution
  | 0, d => return d
  | n + 1, d => do
    let v ← again e scope kind
    sample again scope e kind n (← count v d)

def observe (again : Again) (scope : ScopeId) (mode : OutputMode) (e : Expr) (kind : Option Kind) :
    Eval Outcome := do
  match mode with
  | .roll => return .value (← again e scope kind)
  | .sample => return .distribution (← sample again scope e kind (← get).settings.sampleSize .empty)

def start (site : Expr) (mode : OutputMode) : Eval Unit := do
  match (← get).log.start? mode with
  | some log => modify fun m => { m with log := log }
  | none => fail site .nestedOutput

def orAbandon {α : Type} (body : Eval α) : Eval α := fun m =>
  match body m with
  | .ok a m => .ok a m
  | .error e m => .error e (m.onLog RecordLog.abandon)

def output (again : Again) (site : Expr) (scope : ScopeId) (mode : OutputMode) (e : Expr)
    (type : Option OutputType) (name : Option Expr) : Eval Unit := do
  let kind := (type.getD (← get).settings.defaultType).target
  let name ← match name with
    | some n => string again scope n
    | none => label scope e
  start site mode
  let outcome ← orAbandon (observe again scope mode e kind)
  modify fun m => m.onLog fun log => log.finish name e kind outcome

end DiceLang.Eval

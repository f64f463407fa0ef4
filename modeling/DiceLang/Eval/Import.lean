import DiceLang.Eval.Convert
import DiceLang.Expr.Parser

/-! Imports. A text is evaluated once, in a scope of its own, and its bindings are kept. -/

namespace DiceLang.Eval

def evaluateAll (again : Again) (scope : ScopeId) : List Expr → Eval Unit
  | [] => return ()
  | e :: es => do
    let _ ← again e scope none
    evaluateAll again scope es

def load (again : Again) (site : Expr) (address : String) : Eval MapRef := do
  match (← get).settings.fetch address with
  | .error e => fail site (.importing address (.fetch e))
  | .ok text =>
    match parse address text with
    | .error errors => fail site (.importing address (.parse errors))
    | .ok program =>
      let scope ← modifyGet fun m => m.onEnv Environment.pushRoot
      evaluateAll again scope program
      bindings scope

def resolving (site : Expr) (address : String) (body : Eval MapRef) : Eval MapRef := fun m =>
  match m.imports.begin? address with
  | none => fail site (.circularImport address) m
  | some imports =>
    match body { m with imports := imports } with
    | .ok r m => .ok r { m with imports := m.imports.complete address r }
    | .error e m => .error e { m with imports := m.imports.abort address }

def resolved (again : Again) (site : Expr) (address : String) : Eval MapRef := do
  match (← get).imports.get? address with
  | some r => return r
  | none => resolving site address (load again site address)

def destination (scope : ScopeId) : Option String → Eval MapRef
  | none => bindings scope
  | some name => do
    match (← get).env.lookup scope name with
    | some (.map r) => return r
    | _ =>
      let r ← modifyGet fun m => m.onHeap fun h => h.newMap []
      setVariable scope name (.map r)
      return r

def importing (again : Again) (site : Expr) (scope : ScopeId) (space : Option String)
    (address : Expr) : Eval Unit := do
  let address ← string again scope address
  let source ← resolved again site address
  let target ← destination scope space
  let added ← entries source
  setEntries target (Entries.putAll (← entries target) added)

end DiceLang.Eval

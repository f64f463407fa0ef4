import DiceLang.Eval.Machine
import DiceLang.Value.Fold
import DiceLang.Value.Printer

/-! Calling functions and converting values. A function converts by being called. -/

namespace DiceLang.Eval

/-! ### Calls -/

abbrev Binding := List ((String × Option Expr) × Option Value)

def bindPositional : List (String × Option Expr) → List Value → Binding
  | [], _ => []
  | p :: ps, [] => (p, none) :: bindPositional ps []
  | p :: ps, v :: vs => (p, some v) :: bindPositional ps vs

def bindNamed (name : String) (v : Value) : Binding → Except Fault Binding
  | [] => .error (.unknownArgument name)
  | (p, bound) :: bs =>
    if p.1 = name then
      if bound.isSome then .error (.argumentAlreadySet name) else .ok ((p, some v) :: bs)
    else (bindNamed name v bs).map ((p, bound) :: ·)

def bind (params : List (String × Option Expr)) (positional : List Value)
    (named : List (String × Value)) : Except Fault Binding :=
  if params.length < positional.length then
    .error (.extraArgument params.length positional.length)
  else named.foldlM (fun b arg => bindNamed arg.1 arg.2 b) (bindPositional params positional)

def argumentValues (again : Again) (scope : ScopeId) : Binding → Eval (List (String × Value))
  | [] => return []
  | ((name, fallback), bound) :: rest => do
    let v ← match bound, fallback with
      | some v, _ => pure v
      | none, some e => again e scope none
      | none, none => pure .undefined
    return (name, v) :: (← argumentValues again scope rest)

def defineAll (scope : ScopeId) : List (String × Value) → Eval Unit
  | [] => return ()
  | (name, v) :: rest => do
    define scope name v
    defineAll scope rest

def call (again : Again) (site : Expr) (held : ScopeId) (f : Lambda) (owner : Value)
    (positional : List Value) (named : List (String × Value)) (target : Option Kind) : Eval Value := do
  match bind f.params positional named with
  | .error fault => fail site fault
  | .ok binding =>
    let values ← argumentValues again held binding
    inScope held fun scope => do
      defineAll scope values
      define scope "this" owner
      again f.body scope target

/-! ### Conversions -/

def callFor (again : Again) (k : Kind) (v : Value) : Eval Value :=
  match v with
  | .function _ held f owner => call again f.body held f owner [] [] (some k)
  | v => return v

def textFolding (again : Again) : Folding Eval String where
  contents := contents
  leaf v := do
    match v with
    | .scalar s => return s.toText
    | v =>
      match ← callFor again .string v with
      | .string s => return s
      | _ => return ""
  zero := ""
  add := (· ++ ·)
  tooDeep := unfinished .convert

def numberFolding (again : Again) : Folding Eval Int64 where
  contents := contents
  leaf v := do
    match v with
    | .scalar s => return s.toNumber
    | v =>
      match ← callFor again .number v with
      | .number n => return n
      | _ => return 0
  zero := 0
  add := (· + ·)
  tooDeep := unfinished .convert

def wrap (scope : ScopeId) (v : Value) : Eval Value := do
  match (← get).env.heap.expr? v with
  | some e => newFunction scope ⟨[], e⟩ .undefined
  | none => unfinished (.copy v.container?)

def toListValue (v : Value) : Eval Value :=
  modifyGet fun m => m.onHeap fun h =>
    let (r, h) := h.toList v
    (.list r, h)

def toMapValue (v : Value) : Eval Value :=
  modifyGet fun m => m.onHeap fun h =>
    let (r, h) := h.toMap v
    (.map r, h)

def convertTo (again : Again) (scope : ScopeId) (k : Kind) (v : Value) : Eval Value := do
  if v.kind = k then return v
  match k, v.kind with
  | .undefined, _ => return .undefined
  | k, .function => callFor again k v
  | .string, _ => return .string (← (textFolding again).within (← budget) [] v)
  | .boolean, _ => return .boolean ((← get).env.heap.isTrue v)
  | .number, _ => return .number (← (numberFolding again).within (← budget) [] v)
  | .list, _ => toListValue v
  | .map, _ => toMapValue v
  | .function, _ => wrap scope v

def convert (again : Again) (scope : ScopeId) (target : Option Kind) (v : Value) : Eval Value :=
  match target with
  | none => return v
  | some k => convertTo again scope k v

/-! ### Operands of a kind -/

def number (again : Again) (scope : ScopeId) (e : Expr) : Eval Int64 := do
  match ← again e scope (some .number) with
  | .number n => return n
  | _ => return 0

def boolean (again : Again) (scope : ScopeId) (e : Expr) : Eval Bool := do
  match ← again e scope (some .boolean) with
  | .boolean b => return b
  | _ => return false

def string (again : Again) (scope : ScopeId) (e : Expr) : Eval String := do
  match ← again e scope (some .string) with
  | .string s => return s
  | _ => return ""

def listOf (v : Value) : Eval ListRef :=
  match v with
  | .list r => return r
  | _ => modifyGet fun m => m.onHeap fun h => h.newList []

def list (again : Again) (scope : ScopeId) (e : Expr) : Eval ListRef := do
  listOf (← again e scope (some .list))

def elements (again : Again) (scope : ScopeId) (v : Value) : Eval (List Value) := do
  match ← convertTo again scope .list v with
  | .list r => items r
  | _ => return []

def namedElements (again : Again) (scope : ScopeId) (v : Value) : Eval (List (String × Value)) := do
  match ← convertTo again scope .map v with
  | .map r => entries r
  | _ => return []

end DiceLang.Eval

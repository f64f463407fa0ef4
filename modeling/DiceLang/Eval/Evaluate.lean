import DiceLang.Eval.Import
import DiceLang.Eval.Loop
import DiceLang.Eval.Output
import DiceLang.Eval.Subscript
import DiceLang.Number

/-! Evaluation. One function evaluates each form of expression and asks for nested ones through `again`,
so that only `evaluateWithin` is recursive: by the number of evaluations that may still be nested. -/

namespace DiceLang

namespace Eval

/-! ### Atoms -/

def fragment (again : Again) (scope : ScopeId) : Fragment → Eval String
  | .text s => return s
  | .hole name => do
    match ← convertTo again scope .string (← valueOf scope name) with
    | .string s => return s
    | _ => return ""

def interpolate (again : Again) (scope : ScopeId) : List Fragment → Eval String
  | [] => return ""
  | f :: fs => do
    let s ← fragment again scope f
    return s ++ (← interpolate again scope fs)

def values (again : Again) (scope : ScopeId) : List Expr → Eval (List Value)
  | [] => return []
  | e :: es => do
    let v ← again e scope none
    return v :: (← values again scope es)

def namedValues (again : Again) (scope : ScopeId) :
    List (String × Expr) → Eval (List (String × Value))
  | [] => return []
  | (name, e) :: es => do
    let v ← again e scope none
    return (name, v) :: (← namedValues again scope es)

def scopeVariables (scope : ScopeId) (which : ScopeSelector) : Eval Value := do
  let arena := (← get).env.arena
  match which with
  | .inner => return .map (← bindings scope)
  | .outer =>
    match arena.parent scope with
    | some above => return .map (← bindings above)
    | none => newMap []
  | .outermost => return .map (← bindings (arena.root scope))

/-! ### Dice and lists -/

def throwOne (again : Again) (site : Expr) (die : Value) : Eval Value := do
  match die with
  | .function _ held f owner => call again site held f owner [] [] none
  | die =>
    match ← throwDie die with
    | .face v => return v
    | .unrollable k => fail site (.unrollable k)
    | .call | .unsettled => unfinished .draw

def throwMany (again : Again) (site : Expr) (die : Value) : Nat → Array Value → Eval (Array Value)
  | 0, faces => return faces
  | n + 1, faces => do
    let face ← throwOne again site die
    throwMany again site die n (faces.push face)

/-- Throws several dice. A function with parameters is called with their number instead. -/
def throwDice (again : Again) (site : Expr) (n : Int64) (die : Value) : Eval Value := do
  match die with
  | .function _ held f owner =>
    if f.params.isEmpty then throwNumber n die else call again site held f owner [.number n] [] none
  | die => throwNumber n die
where
  throwNumber (n : Int64) (die : Value) : Eval Value := do
    if n ≤ 0 then fail site (.diceNumber n)
    let faces := (← throwMany again site die n.toInt.toNat #[]).toList
    recordThrow die faces
    newList faces

def draw (r : ListRef) : Eval Value := do
  match ← items r with
  | [] => return .undefined
  | v :: rest =>
    setItems r rest
    return v

def drawMany (n : Int64) (r : ListRef) : Eval Value := do
  let all ← items r
  let n := n.toInt.toNat
  setItems r (all.drop n)
  newList (all.take n)

def reorder (order : Reorder) (r : ListRef) : Eval Value := do
  let all ← items r
  match order with
  | .sort => setItems r ((← get).env.heap.sort all)
  | .reverse => setItems r all.reverse
  | .shuffle => setItems r (← shuffle all)
  return .list r

def count? (h : Heap) : Value → Option Nat
  | .undefined => some 0
  | .scalar _ => some 1
  | .list r => some (h.items r).length
  | .map r => some (h.entries r).length
  | .function .. => none

def indexOf (h : Heap) (element : Value) : Value → Value
  | .undefined => .undefined
  | .list r =>
    match (h.items r).findIdx? fun v => h.same v element with
    | some i => .number (Int64.ofNat i)
    | none => .undefined
  | .map r =>
    match (h.entries r).find? fun e => h.same e.2 element with
    | some e => .string e.1
    | none => .undefined
  | v => .boolean (h.same v element)

def append (again : Again) (site : Expr) (scope : ScopeId) (target source : Expr) : Eval Value := do
  let container ← again target scope none
  match container with
  | .list r =>
    let added ← items (← list again scope source)
    setItems r ((← items r) ++ added)
    return container
  | .map r =>
    if let .map added ← again source scope (some .map) then
      let added ← entries added
      setEntries r (Entries.putAll (← entries r) added)
    return container
  | v => fail site (.appendTarget v.kind)

/-! ### Operators -/

def unary (again : Again) (site : Expr) (scope : ScopeId) (op : UnaryOp) (operand : Expr) :
    Eval Value := do
  match op with
  | .plus => return .number (← number again scope operand)
  | .minus => return .number (-(← number again scope operand))
  | .not => return .boolean (!(← boolean again scope operand))
  | .best selector =>
    let all ← items (← list again scope operand)
    return Dice.best (← get).env.heap selector all
  | .draw => draw (← list again scope operand)
  | .die =>
    let die ← again operand scope none
    let face ← throwOne again site die
    recordThrow die [face]
    return face
  | .count =>
    let v ← again operand scope none
    match count? (← get).env.heap v with
    | some n => return .number (Int64.ofNat n)
    | none => fail site .countFunction
  | .convert k => again operand scope (some k)
  | .reorder order => reorder order (← list again scope operand)

def both (again : Again) (scope : ScopeId) (left right : Expr) : Eval (Value × Value) := do
  let a ← again left scope none
  let b ← again right scope none
  return (a, b)

def numbers (again : Again) (scope : ScopeId) (left right : Expr) : Eval (Int64 × Int64) := do
  let a ← number again scope left
  let b ← number again scope right
  return (a, b)

def binary (again : Again) (site : Expr) (scope : ScopeId) (target : Option Kind) (op : BinaryOp)
    (left right : Expr) : Eval Value := do
  match op with
  | .arithmetic op =>
    let (a, b) ← numbers again scope left right
    match op.apply? a b with
    | some n => return .number n
    | none => fail site .divisionByZero
  | .compare op =>
    let (a, b) ← numbers again scope left right
    return .boolean (op.holds a b)
  | .same =>
    let (a, b) ← both again scope left right
    return .boolean (← same a b)
  | .notSame =>
    let (a, b) ← both again scope left right
    return .boolean (!(← same a b))
  | .and =>
    if ← boolean again scope left then return .boolean (← boolean again scope right)
    return .boolean false
  | .or =>
    if ← boolean again scope left then return .boolean true
    return .boolean (← boolean again scope right)
  | .append => append again site scope left right
  | .indexOf =>
    let (element, container) ← both again scope left right
    return indexOf (← get).env.heap element container
  | .range =>
    let (a, b) ← numbers again scope left right
    makeRoom (b.toInt - a.toInt).natAbs
    newList (Dice.range a b)
  | .bestOf selector =>
    let n ← number again scope left
    let all ← items (← list again scope right)
    newList (Dice.bestOf (← get).env.heap selector n all)
  | .drawMany =>
    let n ← number again scope left
    drawMany n (← list again scope right)
  | .dice =>
    let n ← number again scope left
    throwDice again site n (← again right scope none)
  | .assign =>
    let v ← again right scope none
    assign again scope left v
    return v
  | .subscript =>
    let (container, key) ← both again scope left right
    subscript site container key
  | .sequence =>
    let _ ← again left scope none
    again right scope target

/-- Calls what `callee` stands for; a value that is no function is called as a copy of itself. -/
def callExpr (again : Again) (site : Expr) (scope : ScopeId) (target : Option Kind) (callee : Expr)
    (positional : List Expr) (named : List (String × Expr)) : Eval Value := do
  match ← again callee scope (some .function) with
  | .function _ held f owner =>
    let positional ← values again scope positional
    let named ← namedValues again scope named
    call again site held f owner positional named target
  | _ => return .undefined

def native (again : Again) (e : Expr) (scope : ScopeId) (target : Option Kind) : Eval Value := do
  match e with
  | .scalar _ v => return .scalar v
  | .var _ name => valueOf scope name
  | .interpolation _ fs => return .string (← interpolate again scope fs)
  | .list _ es => newList (← values again scope es)
  | .map _ es => newMap (Entries.ofList (← namedValues again scope es))
  | .lambda _ params body => newFunction scope ⟨params, body⟩ .undefined
  | .unary _ op operand => unary again e scope op operand
  | .binary _ op left right => binary again e scope target op left right
  | .forEach _ index item out container condition =>
    forEach again e container scope ⟨index, item, out, condition⟩
  | .repeating _ form body condition limit => repeating again scope form body condition limit
  | .conditional _ condition whenTrue whenFalse =>
    if ← boolean again scope condition then again whenTrue scope target
    else again whenFalse scope target
  | .call _ callee positional named => callExpr again e scope target callee positional named
  | .scopeVariables _ which => scopeVariables scope which
  | .output _ mode expression type name =>
    output again e scope mode expression type name
    return .undefined
  | .importing _ space address =>
    importing again e scope space address
    return .undefined

end Eval

/-- Evaluates an expression in a scope and converts the value to `target`, with at most `room` nested
evaluations, this one included. -/
def evaluateWithin : Nat → Again
  | 0, e, _, _ => Eval.fail e (.recursionLimit maxDepth)
  | room + 1, e, scope, target =>
    Eval.nested e do
      let v ← Eval.native (evaluateWithin room) e scope target
      Eval.convert (evaluateWithin room) scope target v

def evaluate : Again := fun e scope target m =>
  evaluateWithin (maxDepth - m.depth) e scope target m

end DiceLang

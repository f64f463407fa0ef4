import DiceLang.Eval.Convert

/-! Loops over containers and loops with a condition. Each runs in a scope of its own. -/

namespace DiceLang.Eval

structure ForEach where
  index : Option String
  item : String
  out : Expr
  condition : Option Expr

def holds (again : Again) (scope : ScopeId) : Option Expr → Eval Bool
  | none => return true
  | some e => boolean again scope e

def step (again : Again) (loop : ForEach) (scope : ScopeId) (index item : Value) :
    Eval (Option Value) := do
  define scope loop.item item
  if let some name := loop.index then define scope name index
  if ← holds again scope loop.condition then return some (← again loop.out scope none)
  return none

def overItems (again : Again) (loop : ForEach) (scope : ScopeId) :
    Nat → List Value → Array Value → Eval (Array Value)
  | _, [], results => return results
  | i, item :: rest, results => do
    let result ← step again loop scope (.number (Int64.ofNat i)) item
    overItems again loop scope (i + 1) rest (results ++ result.toArray)

def overEntries (again : Again) (loop : ForEach) (scope : ScopeId) :
    List (String × Value) → Array (String × Value) → Eval (Array (String × Value))
  | [], results => return results
  | (key, item) :: rest, results => do
    let result ← step again loop scope (.string key) item
    overEntries again loop scope rest (results ++ result.toArray.map fun v => (key, v))

/-- Runs over the elements that the container has when the loop starts. -/
def forEach (again : Again) (site container : Expr) (scope : ScopeId) (loop : ForEach) :
    Eval Value := do
  let v ← again container scope none
  let v ← if v.kind = .function then convertTo again scope .list v else pure v
  match v with
  | .list r =>
    let all ← items r
    let results ← inScope scope fun inner => overItems again loop inner 0 all #[]
    newList results.toList
  | .map r =>
    let all ← entries r
    let results ← inScope scope fun inner => overEntries again loop inner all #[]
    newMap results.toList
  | v => fail site (.loopContainer v.kind)

/-- Whether the limit is reached after so many rounds; a test behind the round allows one more. -/
def reached (form : RepeatForm) (limit : Option Int64) (rounds : Nat) : Bool :=
  limit.any fun n =>
    match form with
    | .before => n.toInt ≤ rounds
    | .after | .once => min (n.toInt + 1) Int64.maxValue.toInt ≤ rounds

def rounds (again : Again) (form : RepeatForm) (body condition : Expr) (limit : Option Int64)
    (scope : ScopeId) : Nat → Array Value → Eval (Array Value)
  | 0, _ => unfinished .loop
  | fuel + 1, results => do
    match form with
    | .before =>
      if reached form limit results.size then return results
      if ← boolean again scope condition then
        let v ← again body scope none
        rounds again form body condition limit scope fuel (results.push v)
      else return results
    | .after | .once =>
      let v ← again body scope none
      let results := results.push v
      if reached form limit results.size then return results
      if ← boolean again scope condition then
        rounds again form body condition limit scope fuel results
      else return results

def roundBound (budget : Nat) : Option Int64 → Nat
  | none => budget
  | some n => n.toInt.toNat + 2

def repeating (again : Again) (scope : ScopeId) (form : RepeatForm) (body condition : Expr)
    (limit : Option Expr) : Eval Value := do
  let limit ← match limit with
    | some e => pure (some (← number again scope e))
    | none => pure none
  let bound := roundBound (← budget) limit
  let results ← inScope scope fun inner => rounds again form body condition limit inner bound #[]
  newList results.toList

end DiceLang.Eval

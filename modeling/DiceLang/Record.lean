import DiceLang.Distribution
import DiceLang.Expr.Basic

/-! What a program puts out. An output is in flight from its start to its finish, and no other can start
meanwhile. -/

namespace DiceLang

structure DiceRecord where
  die : Value
  results : List Value
deriving Inhabited

inductive Outcome where
  | value (v : Value)
  | distribution (d : Distribution)
deriving Inhabited

structure OutputRecord where
  mode : OutputMode
  name : String
  expression : Expr
  kind : Option Kind
  outcome : Outcome
  dice : List DiceRecord
deriving Inhabited

structure InFlight where
  mode : OutputMode
  dice : Array DiceRecord
deriving Inhabited

structure RecordLog where
  records : Array OutputRecord
  dice : Array DiceRecord
  current : Option InFlight
deriving Inhabited

namespace RecordLog

def empty : RecordLog := ⟨#[], #[], none⟩

def isSampling (log : RecordLog) : Bool := log.current.any fun c => c.mode == .sample

/-- Adds a throw, also to the roll in flight. Throws of samples are not kept. -/
def throw (log : RecordLog) (record : DiceRecord) : RecordLog :=
  if log.isSampling then log
  else
    let current := log.current.map fun c => { c with dice := c.dice.push record }
    ⟨log.records, log.dice.push record, current⟩

def start? (log : RecordLog) (mode : OutputMode) : Option RecordLog :=
  if log.current.isSome then none else some { log with current := some ⟨mode, #[]⟩ }

def finish (log : RecordLog) (name : String) (expression : Expr) (kind : Option Kind)
    (outcome : Outcome) : RecordLog :=
  match log.current with
  | none => log
  | some c =>
    let record := ⟨c.mode, name, expression, kind, outcome, c.dice.toList⟩
    ⟨log.records.push record, log.dice, none⟩

def abandon (log : RecordLog) : RecordLog := { log with current := none }

end RecordLog

def Outcome.aggregate (h : Heap) : Outcome → Outcome
  | .value v => .value v
  | .distribution d => .distribution (d.aggregate h)

def OutputRecord.aggregate (h : Heap) (r : OutputRecord) : OutputRecord :=
  { r with outcome := r.outcome.aggregate h }

def RecordLog.aggregate (h : Heap) (log : RecordLog) : RecordLog :=
  { log with records := log.records.map (OutputRecord.aggregate h) }

end DiceLang

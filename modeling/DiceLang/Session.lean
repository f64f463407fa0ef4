import DiceLang.Eval.Evaluate

/-! Sessions: programs run one after another over the same variables, records and imports. -/

namespace DiceLang

structure Options where
  sampleSize : Nat
  defaultType : OutputType
  defaultMode : OutputMode
  seed : UInt64

inductive RunError where
  | malformed (errors : List SyntaxError)
  | interrupted (reason : Interrupt)
deriving Inhabited

structure Session where
  machine : Machine
  defaultMode : OutputMode

namespace Session

/-- Steps enough for any run that ends in practice. -/
def defaultBudget : Nat := 1 <<< 60

def start (options : Options) (fetch : Fetch) : Session :=
  let settings := ⟨options.sampleSize, options.defaultType, fetch, defaultBudget⟩
  ⟨.initial options.seed settings, options.defaultMode⟩

def heap (s : Session) : Heap := s.machine.env.heap

def perform {α : Type} (s : Session) (step : Eval α) : Except RunError α × Session :=
  match step s.machine with
  | .ok a m => (.ok a, { s with machine := m })
  | .error e m => (.error (.interrupted e), { s with machine := m })

def evaluateAll : Value → List Expr → Eval Value
  | last, [] => return last
  | _, e :: es => do evaluateAll (← evaluate e Environment.global none) es

def eval (s : Session) (text : String) : Except RunError Value × Session :=
  match parse "<eval>" text with
  | .error errors => (.error (.malformed errors), s)
  | .ok program => s.perform (evaluateAll .undefined program)

def convert (s : Session) (target : Option Kind) (v : Value) : Except RunError Value × Session :=
  s.perform (Eval.convert evaluate Environment.global target v)

/-- Puts out an expression; of a sequence only the last part, so that its label shows the variables
bound before it. -/
def outputOf (mode : OutputMode) : Expr → Expr
  | .binary loc .sequence left right => .binary loc .sequence left (outputOf mode right)
  | e => .output e.location mode e none none

def withOutput (mode : OutputMode) (program : List Expr) : List Expr :=
  if program.any Expr.hasOutput then program
  else match program.getLast? with
    | some last => program.dropLast ++ [outputOf mode last]
    | none => program

def aggregateRecords : Eval (List OutputRecord) :=
  modifyGet fun m =>
    let m := m.onLog (RecordLog.aggregate m.env.heap)
    (m.log.records.toList, m)

def run (s : Session) (source text : String) : Except RunError (List OutputRecord) × Session :=
  let s := { s with machine := s.machine.onLog fun _ => .empty }
  match parse source text with
  | .error errors => (.error (.malformed errors), s)
  | .ok program =>
    s.perform do
      let _ ← evaluateAll .undefined (withOutput s.defaultMode program)
      aggregateRecords

end Session

end DiceLang

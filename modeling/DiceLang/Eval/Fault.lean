import DiceLang.Expr.Printer
import DiceLang.Expr.SyntaxError
import DiceLang.Import.Files
import DiceLang.Value.Basic

/-! What can go wrong in a run. -/

namespace DiceLang

inductive ImportProblem where
  | fetch (error : FetchError)
  | parse (errors : List SyntaxError)
deriving DecidableEq, Inhabited

def ImportProblem.message : ImportProblem → String
  | .fetch e => e.message
  | .parse errors => SyntaxError.summary errors

inductive Fault where
  | invalidSubscript (subscript : Kind)
  | subscriptContainer (container subscript : Kind)
  | unrollable (die : Kind)
  | diceNumber (n : Int64)
  | countFunction
  | nestedOutput
  | appendTarget (target : Kind)
  | loopContainer (container : Kind)
  | extraArgument (expected received : Nat)
  | argumentAlreadySet (name : String)
  | unknownArgument (name : String)
  | notAssignable
  | divisionByZero
  | importing (address : String) (problem : ImportProblem)
  | circularImport (address : String)
  | recursionLimit (limit : Nat)
deriving DecidableEq, Inhabited

def Fault.message : Fault → String
  | .invalidSubscript k => "invalid subscript of type " ++ k.label
  | .subscriptContainer c s => "cannot subscript a " ++ c.label ++ " with a " ++ s.label
  | .unrollable k => "cannot roll a die of type " ++ k.label
  | .diceNumber n => "invalid number of dice: " ++ Decimal.ofInt64 n
  | .countFunction => "cannot count a function"
  | .nestedOutput => "nested output"
  | .appendTarget k => "cannot append to a " ++ k.label
  | .loopContainer k => "illegal loop container of type " ++ k.label
  | .extraArgument expected received =>
    "too many arguments: expected at most " ++ toString expected ++ ", received " ++ toString received
  | .argumentAlreadySet name => "argument `" ++ name ++ "` is already set"
  | .unknownArgument name => "unknown argument `" ++ name ++ "`"
  | .notAssignable => "expression is not assignable"
  | .divisionByZero => "division by zero"
  | .importing address problem => "cannot import `" ++ address ++ "`: " ++ problem.message
  | .circularImport address => "circular import of `" ++ address ++ "`"
  | .recursionLimit limit =>
    "recursion limit reached: more than " ++ toString limit ++ " nested evaluations"

structure EvaluationError where
  fault : Fault
  location : Location
  expression : String
deriving DecidableEq, Inhabited

def Expr.error (e : Expr) (fault : Fault) : EvaluationError := ⟨fault, e.location, e.source⟩

/-- What a run may have no end of, or no room for. Where it goes through subscripts in containers of
subscripts, these are listed, the innermost first. -/
inductive Work where
  | copy (container : Option Container)
  | read (path : List Container)
  | write (path : List Container)
  | convert
  | draw
  | loop
  | makeRoom (items : Nat)
deriving DecidableEq, Inhabited

inductive Interrupt where
  | failed (error : EvaluationError)
  | unfinished {w : Work}
deriving DecidableEq, Inhabited

end DiceLang

import DiceLang.Session

/-! What is shown of an error beside the source text it lies in. -/

namespace DiceLang

structure SourceLabel where
  offset : Nat
  length : Nat
  text : String
deriving DecidableEq, Inhabited

structure Diagnostic where
  message : String
  code : String
  help : Option String
  labels : List SourceLabel
deriving DecidableEq, Inhabited

def Location.labelled (loc : Location) (text : String) : SourceLabel :=
  ⟨loc.span.first.offset, loc.span.length, text⟩

def SyntaxError.diagnostic (e : SyntaxError) : Diagnostic where
  message := e.fault.message
  code := "yadrol::syntax"
  help := e.fault.help
  labels := [e.location.labelled "here"]

def EvaluationError.diagnostic (e : EvaluationError) : Diagnostic where
  message := e.fault.message
  code := "yadrol::evaluation"
  help := none
  labels := [e.location.labelled ("while evaluating `" ++ e.expression ++ "`")]

namespace Diagnostic

def text (d : Diagnostic) : String :=
  d.code ++ ": " ++ d.message ++ "\n" ++
    String.join (d.labels.map fun l => "  " ++ l.text ++ "\n") ++
    (d.help.map fun h => "  help: " ++ h ++ "\n").getD ""

end Diagnostic

def EvaluationError.line (e : EvaluationError) : String :=
  "Evaluation error at " ++ e.location.text ++ ": " ++ e.fault.message ++ " (in `" ++ e.expression ++
    "`)\n"

def SyntaxError.report (source : String) (e : SyntaxError) : String :=
  if e.location.source = source then e.diagnostic.text else "Syntax error: " ++ e.text ++ "\n"

def EvaluationError.report (source : String) (e : EvaluationError) : String :=
  if e.location.source = source then e.diagnostic.text else e.line

def RunError.report (source : String) : RunError → String
  | .malformed errors => String.join (errors.map (SyntaxError.report source))
  | .interrupted (.failed e) => e.report source
  | .interrupted .unfinished => "The run did not end.\n"

end DiceLang

import DiceLang.Token.Lexer

/-! What can be wrong with the text of a program. -/

namespace DiceLang

inductive SyntaxFault where
  | lexical (problem : LexicalProblem)
  | missing (lexeme : Lexeme)
  | expression
  | trailing
  | outputType
  | repeatTest
  | loopVariable
  | itemVariable
  | entryAfterDot
  | entryName
  | interpolatedKey
  | parameterName
  | positionalAfterNamed
  | nesting
deriving DecidableEq, Inhabited

namespace SyntaxFault

def lexemeText : Lexeme → String
  | .keyword k => k.text
  | .mark m => m.text
  | .name s => s
  | .number n => Decimal.ofInt64 n
  | .text _ => "string"
  | .eof => "end"

def message : SyntaxFault → String
  | .lexical p => p.message
  | .missing l => "Expected `" ++ lexemeText l ++ "`"
  | .expression => "Expected an expression"
  | .trailing => "Unexpected token after expression"
  | .outputType => "Expected a type after `as`"
  | .repeatTest => "Expected `while` or `if` after repeated expression"
  | .loopVariable => "Expected loop variable after `for`"
  | .itemVariable => "Expected item variable after `,`"
  | .entryAfterDot => "Expected entry name after `.`"
  | .entryName => "Expected entry name"
  | .interpolatedKey => "Map keys cannot be interpolated"
  | .parameterName => "Expected parameter name"
  | .positionalAfterNamed => "Positional argument after named argument"
  | .nesting => "Expression is nested too deeply"

def help : SyntaxFault → Option String
  | .trailing => some "separate expressions with `;` or `---`"
  | .outputType => some "one of undef, string, boolean, number, list, map, fun, native"
  | .repeatTest => some "write `repeat E while C` or `repeat E if C`"
  | .entryName => some "map entries are written `name: expression`"
  | .positionalAfterNamed => some "pass positional arguments first"
  | _ => none

end SyntaxFault

structure SyntaxError where
  fault : SyntaxFault
  location : Location
deriving DecidableEq, Inhabited

namespace SyntaxError

def text (e : SyntaxError) : String := e.location.text ++ ": " ++ e.fault.message

def summary : List SyntaxError → String
  | [] => "syntax error"
  | [e] => e.text
  | e :: es => e.text ++ " (and " ++ toString es.length ++ " more)"

end SyntaxError

end DiceLang

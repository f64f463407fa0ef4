import DiceLang.Expr.Basic
import DiceLang.Token.Lexer

/-! Writing expressions as source text, with as few parentheses as the grammar allows. -/

namespace DiceLang

abbrev Lookup := String → Option Scalar

namespace Printer

def escapeChar : Char → List Char
  | '"' => ['\\', '"']
  | '\\' => ['\\', '\\']
  | '\x7b' => ['\\', '\x7b']
  | '\n' => ['\\', 'n']
  | '\t' => ['\\', 't']
  | c => [c]

def escape (s : String) : String := String.ofList (s.toList.flatMap escapeChar)

def quoted (s : String) : String := "\"" ++ escape s ++ "\""

def fragmentText : Fragment → String
  | .text s => escape s
  | .hole name => "\x7b" ++ name ++ "\x7d"

def interpolated (fs : List Fragment) : String := "\"" ++ String.join (fs.map fragmentText) ++ "\""

def isDiceWord : List Char → Bool
  | 'd' :: c :: s => Lexer.isDieSuffix (c :: s)
  | c :: 'd' :: s => c.isUpper && Lexer.isDieSuffix s
  | _ => false

def isPlainName (s : String) : Bool :=
  Lexer.isIdentifier s.toList && (Keyword.ofText? s).isNone && !isDiceWord s.toList

def key (s : String) : String := if isPlainName s then s else quoted s

/-- Whether a count must stand apart from the `d` that follows: `3d6` and `Nd6` are dice, `xd6` is a
name. -/
def spaceAfterCount (count : String) : Bool :=
  match count.toList.getLast? with
  | none => false
  | some c =>
    Lexer.isWordChar c && !count.toList.all Char.isDigit && !(count.toList.length == 1 && c.isUpper)

/-- Whether a die must stand apart from the `d` before it: `d6`, `dX` and `d[1, 2]` are dice, `dx` is a
name. -/
def spaceBeforeDie (die : String) : Bool :=
  match die.toList with
  | [] => false
  | c :: s =>
    if c.isUpper then false
    else if c.isDigit then (s.dropWhile Char.isDigit).head?.any Lexer.isLetter
    else Lexer.isLetter c

def thrown (count die : String) : String :=
  count ++ (if spaceAfterCount count then " d" else "d") ++ (if spaceBeforeDie die then " " else "") ++
    die

def scalar : Scalar → String
  | .undefined => "undef"
  | .boolean true => "true"
  | .boolean false => "false"
  | .number n => Decimal.ofInt64 n
  | .string s => quoted s

def opening : UnaryOp → String
  | .plus => "+"
  | .minus => "-"
  | .not => "not "
  | .best s => s.keyword ++ " of "
  | .draw => "draw from "
  | .die => "d"
  | .count => "count "
  | .convert k => k.keyword ++ " "
  | .reorder r => r.keyword ++ " "

def operandLevel : UnaryOp → Precedence
  | .plus | .minus => .best
  | .not => .not
  | .best _ => .draw
  | .draw => .dice
  | .die | .count | .convert _ | .reorder _ => .unary

def unary (op : UnaryOp) (operand : String) : String :=
  match op with
  | .die => thrown "" operand
  | op => opening op ++ operand

def leftLevel : BinaryOp → Precedence
  | .arithmetic .add | .arithmetic .sub => .plus
  | .arithmetic .mul | .arithmetic .div | .arithmetic .mod => .mult
  | .compare _ | .same | .notSame => .indexOf
  | .and => .and
  | .or => .or
  | .append => .range
  | .indexOf => .append
  | .range => .plus
  | .bestOf _ => .or
  | .drawMany => .dice
  | .dice => .unary
  | .assign => .control
  | .subscript => .subscript
  | .sequence => .sequence

def rightLevel : BinaryOp → Precedence
  | .arithmetic .add | .arithmetic .sub => .mult
  | .arithmetic .mul | .arithmetic .div | .arithmetic .mod => .sign
  | .compare _ | .same | .notSame => .indexOf
  | .and => .not
  | .or => .and
  | .append => .range
  | .indexOf => .append
  | .range => .plus
  | .bestOf _ => .draw
  | .drawMany => .dice
  | .dice => .unary
  | .assign => .control
  | .subscript => .sequence
  | .sequence => .output

def binary (op : BinaryOp) (left right : String) : String :=
  match op with
  | .arithmetic op => left ++ " " ++ op.text ++ " " ++ right
  | .compare op => left ++ " " ++ op.text ++ " " ++ right
  | .same => left ++ " === " ++ right
  | .notSame => left ++ " !== " ++ right
  | .and => left ++ " and " ++ right
  | .or => left ++ " or " ++ right
  | .append => left ++ " << " ++ right
  | .indexOf => left ++ " in " ++ right
  | .range => left ++ " .. " ++ right
  | .bestOf s => s.keyword ++ " " ++ left ++ " of " ++ right
  | .drawMany => "draw " ++ left ++ " from " ++ right
  | .dice => thrown left right
  | .assign => left ++ " = " ++ right
  | .subscript => left ++ "[" ++ right ++ "]"
  | .sequence => left ++ "; " ++ right

def enclose (e : Expr) (level : Precedence) (text : String) : String :=
  if e.precedence.rank < level.rank then "(" ++ text ++ ")" else text

def entryName? : Expr → Option String
  | .scalar _ (.string s) => if isPlainName s then some s else none
  | _ => none

def isVar (name : String) : Expr → Bool
  | .var _ s => s == name
  | _ => false

def isTrue : Option Expr → Bool
  | some (.scalar _ (.boolean true)) => true
  | _ => false

def isUndefined : Option Expr → Bool
  | some (.scalar _ .undefined) => true
  | _ => false

mutual

def node (look : Lookup) : Expr → String
  | .scalar _ v => scalar v
  | .interpolation _ fs => interpolated fs
  | .list _ items => "[" ++ ", ".intercalate (nodes look items) ++ "]"
  | .map _ entries => "\x7b" ++ ", ".intercalate (entryNodes look entries) ++ "\x7d"
  | .lambda _ params body =>
    "fun(" ++ ", ".intercalate (paramNodes look params) ++ ") \x7b " ++ node look body ++ " \x7d"
  | .unary _ op operand => unary op (enclose operand (operandLevel op) (node look operand))
  | .binary _ op left right =>
    let before := enclose left (leftLevel op) (node look left)
    let behind := enclose right (rightLevel op) (node look right)
    match op, entryName? right with
    | .subscript, some name => before ++ "." ++ name
    | op, _ => binary op before behind
  | .forEach _ index item out container condition =>
    (if isVar item out then "" else enclose out .or (node look out) ++ " ") ++ "for " ++
      (match index with | some i => i ++ ", " | none => "") ++ item ++ " in " ++
      enclose container .or (node look container) ++
      (if isTrue condition then "" else clause look " if " .or condition)
  | .repeating _ form body condition limit =>
    let round := enclose body .or (node look body)
    let test := enclose condition .or (node look condition)
    match form with
    | .before => "while " ++ test ++ " repeat " ++ round ++ clause look " limit " .or limit
    | .after => "repeat " ++ round ++ " while " ++ test ++ clause look " limit " .or limit
    | .once => "repeat " ++ round ++ " if " ++ test
  | .conditional _ condition whenTrue whenFalse =>
    "if " ++ enclose condition .or (node look condition) ++ " then " ++
      enclose whenTrue .or (node look whenTrue) ++ " else " ++
      enclose whenFalse .control (node look whenFalse)
  | .call _ callee positional named =>
    enclose callee .subscript (node look callee) ++ "(" ++
      ", ".intercalate (nodes look positional ++ argumentNodes look named) ++ ")"
  | .scopeVariables _ which => which.keyword
  | .output _ mode expression type name =>
    mode.keyword ++ " " ++ enclose expression .assign (node look expression) ++
      (match type with | some t => " as " ++ t.keyword | none => "") ++ clause look " " .atom name
  | .importing _ space address =>
    "import " ++ (match space with | some s => s ++ " = " | none => "") ++
      enclose address .assign (node look address)
  | .var _ name =>
    match look name with
    | some v => scalar v
    | none => name

def nodes (look : Lookup) : List Expr → List String
  | [] => []
  | e :: es => node look e :: nodes look es

def entryNodes (look : Lookup) : List (String × Expr) → List String
  | [] => []
  | (name, e) :: es => (key name ++ ": " ++ node look e) :: entryNodes look es

def argumentNodes (look : Lookup) : List (String × Expr) → List String
  | [] => []
  | (name, e) :: es => (name ++ ": " ++ node look e) :: argumentNodes look es

def paramNodes (look : Lookup) : List (String × Option Expr) → List String
  | [] => []
  | (name, e) :: es =>
    (name ++ if isUndefined e then "" else clause look ": " .sequence e) :: paramNodes look es

def clause (look : Lookup) (lead : String) (level : Precedence) : Option Expr → String
  | none => ""
  | some e => lead ++ enclose e level (node look e)

end

end Printer

/-- The text of an expression at a place of the given strength, with scalars in place of the names that
stand for them. -/
def Expr.label (look : Lookup) (level : Precedence) (e : Expr) : String :=
  Printer.enclose e level (Printer.node look e)

def Expr.source (e : Expr) : String := e.label (fun _ => none) .sequence

def Lambda.source (f : Lambda) : String :=
  Printer.node (fun _ => none) (.lambda .builtin f.params f.body)

end DiceLang

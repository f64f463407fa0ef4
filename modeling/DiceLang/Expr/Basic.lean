import DiceLang.Kind
import DiceLang.Token.Basic

/-! Expressions. Every node carries its place. -/

namespace DiceLang

inductive Precedence where
  | sequence | output | assign | control | or | and | not | comparison | indexOf | append | range
  | plus | mult | sign | best | draw | dice | unary | subscript | atom
deriving DecidableEq, Inhabited

namespace Precedence

def rank : Precedence → Nat
  | .sequence => 0
  | .output => 1
  | .assign => 2
  | .control => 3
  | .or => 4
  | .and => 5
  | .not => 6
  | .comparison => 7
  | .indexOf => 8
  | .append => 9
  | .range => 10
  | .plus => 11
  | .mult => 12
  | .sign => 13
  | .best => 14
  | .draw => 15
  | .dice => 16
  | .unary => 17
  | .subscript => 18
  | .atom => 19

end Precedence

inductive Arithmetic where
  | add | sub | mul | div | mod
deriving DecidableEq, Inhabited

namespace Arithmetic

def text : Arithmetic → String
  | .add => "+"
  | .sub => "-"
  | .mul => "*"
  | .div => "/"
  | .mod => "%"

end Arithmetic

inductive Comparison where
  | eq | ne | lt | gt | le | ge
deriving DecidableEq, Inhabited

namespace Comparison

def text : Comparison → String
  | .eq => "=="
  | .ne => "!="
  | .lt => "<"
  | .gt => ">"
  | .le => "<="
  | .ge => ">="

end Comparison

inductive Selector where
  | highest | lowest | first | last
deriving DecidableEq, Inhabited

namespace Selector

def keyword : Selector → String
  | .highest => "highest"
  | .lowest => "lowest"
  | .first => "first"
  | .last => "last"

end Selector

inductive Reorder where
  | sort | reverse | shuffle
deriving DecidableEq, Inhabited

namespace Reorder

def keyword : Reorder → String
  | .sort => "sorted"
  | .reverse => "reversed"
  | .shuffle => "shuffled"

end Reorder

inductive ScopeSelector where
  | inner | outer | outermost
deriving DecidableEq, Inhabited

namespace ScopeSelector

def keyword : ScopeSelector → String
  | .inner => "local"
  | .outer => "outer"
  | .outermost => "global"

end ScopeSelector

inductive UnaryOp where
  | plus | minus
  | not
  | best (selector : Selector)
  | draw
  | die
  | count
  | convert (kind : Kind)
  | reorder (order : Reorder)
deriving DecidableEq, Inhabited

inductive BinaryOp where
  | arithmetic (op : Arithmetic)
  | compare (op : Comparison)
  | same | notSame
  | and | or
  | append | indexOf | range
  | bestOf (selector : Selector)
  | drawMany
  | dice
  | assign
  | subscript
  | sequence
deriving DecidableEq, Inhabited

inductive RepeatForm where
  /-- Before each round: `while C repeat E`. -/
  | before
  /-- After each round: `repeat E while C`. -/
  | after
  /-- After the first round, with one more round at most: `repeat E if C`. -/
  | once
deriving DecidableEq, Inhabited

inductive Scalar where
  | undefined
  | string (s : String)
  | boolean (b : Bool)
  | number (n : Int64)
deriving DecidableEq, Inhabited

def Scalar.kind : Scalar → Kind
  | .undefined => .undefined
  | .string _ => .string
  | .boolean _ => .boolean
  | .number _ => .number

inductive Expr where
  | scalar (loc : Location) (value : Scalar)
  | interpolation (loc : Location) (fragments : List Fragment)
  | list (loc : Location) (items : List Expr)
  | map (loc : Location) (entries : List (String × Expr))
  | lambda (loc : Location) (params : List (String × Option Expr)) (body : Expr)
  | unary (loc : Location) (op : UnaryOp) (operand : Expr)
  | binary (loc : Location) (op : BinaryOp) (left right : Expr)
  | forEach (loc : Location) (index : Option String) (item : String) (out container : Expr)
      (condition : Option Expr)
  | repeating (loc : Location) (form : RepeatForm) (body condition : Expr) (limit : Option Expr)
  | conditional (loc : Location) (condition whenTrue whenFalse : Expr)
  | call (loc : Location) (callee : Expr) (positional : List Expr) (named : List (String × Expr))
  | scopeVariables (loc : Location) (which : ScopeSelector)
  | output (loc : Location) (mode : OutputMode) (expression : Expr) (type : Option OutputType)
      (name : Option Expr)
  | importing (loc : Location) (space : Option String) (address : Expr)
  | var (loc : Location) (name : String)
deriving Inhabited

structure Lambda where
  params : List (String × Option Expr)
  body : Expr
deriving Inhabited

namespace UnaryOp

def precedence : UnaryOp → Precedence
  | .plus | .minus => .sign
  | .not => .not
  | .best _ => .best
  | .draw => .draw
  | .die => .dice
  | .count | .convert _ | .reorder _ => .unary

def nativeKind : UnaryOp → Option Kind
  | .plus | .minus | .count => some .number
  | .not => some .boolean
  | .convert k => some k
  | .reorder _ => some .list
  | .best _ | .draw | .die => none

end UnaryOp

namespace BinaryOp

def precedence : BinaryOp → Precedence
  | .arithmetic .add | .arithmetic .sub => .plus
  | .arithmetic .mul | .arithmetic .div | .arithmetic .mod => .mult
  | .compare _ | .same | .notSame => .comparison
  | .and => .and
  | .or => .or
  | .append => .append
  | .indexOf => .indexOf
  | .range => .range
  | .bestOf _ => .best
  | .drawMany => .draw
  | .dice => .dice
  | .assign => .assign
  | .subscript => .subscript
  | .sequence => .sequence

def nativeKind : BinaryOp → Option Kind
  | .arithmetic _ => some .number
  | .compare _ | .same | .notSame | .and | .or => some .boolean
  | .range | .bestOf _ | .drawMany | .dice => some .list
  | .append | .indexOf | .assign | .subscript | .sequence => none

end BinaryOp

namespace Expr

def location : Expr → Location
  | .scalar loc .. | .interpolation loc .. | .list loc .. | .map loc .. | .lambda loc ..
  | .unary loc .. | .binary loc .. | .forEach loc .. | .repeating loc .. | .conditional loc ..
  | .call loc .. | .scopeVariables loc .. | .output loc .. | .importing loc .. | .var loc .. => loc

def precedence : Expr → Precedence
  | .scalar _ (.number n) => if n < 0 then .sign else .atom
  | .scalar .. | .interpolation .. | .list .. | .map .. | .lambda .. | .scopeVariables ..
  | .var .. => .atom
  | .unary _ op _ => op.precedence
  | .binary _ op .. => op.precedence
  | .forEach .. | .repeating .. | .conditional .. => .control
  | .call .. => .subscript
  | .output .. | .importing .. => .output

/-- The kind of the value before any conversion, if it is the same for every run. -/
def nativeKind : Expr → Option Kind
  | .scalar _ v => some v.kind
  | .interpolation .. => some .string
  | .list .. | .repeating .. => some .list
  | .map .. | .scopeVariables .. => some .map
  | .lambda .. => some .function
  | .unary _ op _ => op.nativeKind
  | .binary _ .sequence _ right => right.nativeKind
  | .binary _ op .. => op.nativeKind
  | .output .. | .importing .. => some .undefined
  | .forEach .. | .conditional .. | .call .. | .var .. => none

mutual

def hasOutput : Expr → Bool
  | .output .. => true
  | .scalar .. | .interpolation .. | .scopeVariables .. | .var .. => false
  | .list _ items => anyOutput items
  | .map _ entries => anyEntryOutput entries
  | .lambda _ params body => body.hasOutput || anyDefaultOutput params
  | .unary _ _ operand => operand.hasOutput
  | .binary _ _ left right => left.hasOutput || right.hasOutput
  | .forEach _ _ _ out container condition =>
    out.hasOutput || container.hasOutput || optionalOutput condition
  | .repeating _ _ body condition limit =>
    body.hasOutput || condition.hasOutput || optionalOutput limit
  | .conditional _ condition whenTrue whenFalse =>
    condition.hasOutput || whenTrue.hasOutput || whenFalse.hasOutput
  | .call _ callee positional named =>
    callee.hasOutput || anyOutput positional || anyEntryOutput named
  | .importing _ _ address => address.hasOutput

def anyOutput : List Expr → Bool
  | [] => false
  | e :: es => e.hasOutput || anyOutput es

def anyEntryOutput : List (String × Expr) → Bool
  | [] => false
  | (_, e) :: es => e.hasOutput || anyEntryOutput es

def anyDefaultOutput : List (String × Option Expr) → Bool
  | [] => false
  | (_, e) :: es => optionalOutput e || anyDefaultOutput es

def optionalOutput : Option Expr → Bool
  | none => false
  | some e => e.hasOutput

end

def join (op : BinaryOp) (left right : Expr) : Expr :=
  .binary (left.location.upTo right.location) op left right

end Expr

end DiceLang

import DiceLang.Expr.Basic
import DiceLang.Expr.SyntaxError

/-! Reading programs. Each level of precedence is a parser over the tokens that remain. A parser that
meets a nested expression asks for it through the function `again`, so that only `parseAt` is
recursive: by the depth of nesting, which the number of tokens bounds. -/

namespace DiceLang

namespace Parser

structure Cursor where
  source : String
  last : Option Span
  rest : List Token

/-- A parser keeps its place when it fails. -/
abbrev Parse := EStateM SyntaxError Cursor

inductive Level where
  | sequence | control | disjunction | negation | unary
deriving DecidableEq, Inhabited

abbrev Again := Level → Parse Expr

/-! ### Tokens -/

def Cursor.lexeme (c : Cursor) : Lexeme := (c.rest.head?.map Token.lexeme).getD .eof

def Cursor.span (c : Cursor) : Span := (c.rest.head?.map Token.span).getD (c.last.getD default)

def Cursor.advance (c : Cursor) : Cursor :=
  match c.rest with
  | [] => c
  | t :: rest => { c with last := some t.span, rest := rest }

def peek : Parse Lexeme := return (← get).lexeme

def here : Parse Span := return (← get).span

def advance : Parse Unit := modify Cursor.advance

def location (span : Span) : Parse Location := return ⟨(← get).source, span⟩

def locationFrom (start : Span) : Parse Location := do
  let c ← get
  location (match c.last with | some last => start.union last | none => start)

def fail {α : Type} (fault : SyntaxFault) : Parse α := do
  throw ⟨fault, ← location (← here)⟩

def accept (l : Lexeme) : Parse Bool := do
  if (← peek) = l then
    advance
    return true
  return false

def expect (l : Lexeme) : Parse Span := do
  let span ← here
  if ← accept l then return span
  fail (.missing l)

def expectName (fault : SyntaxFault) : Parse (String × Span) := do
  match ← peek with
  | .name s =>
    let span ← here
    advance
    return (s, span)
  | _ => fail fault

def Cursor.nameBefore? (c : Cursor) (m : Mark) : Option String :=
  match c.rest with
  | ⟨.name s, _⟩ :: ⟨.mark k, _⟩ :: _ => if k = m then some s else none
  | _ => none

def acceptNameBefore (m : Mark) : Parse (Option String) := do
  match (← get).nameBefore? m with
  | some s =>
    advance
    advance
    return some s
  | none => return none

/-! ### Repetition

Each round takes a token, so the tokens that remain when a repetition starts bound its rounds. The
repetition is a recursion on that list: `bound` loses a token with every round. -/

def remaining : Parse (List Token) := return (← get).rest

def chainFrom (op? : Lexeme → Option BinaryOp) (operand : Parse Expr) : List Token → Expr → Parse Expr
  | [], left => return left
  | _ :: bound, left => do
    match op? (← peek) with
    | none => return left
    | some op =>
      advance
      let right ← operand
      chainFrom op? operand bound (.join op left right)

def chain (op? : Lexeme → Option BinaryOp) (operand : Parse Expr) : Parse Expr := do
  let left ← operand
  chainFrom op? operand (← remaining) left

def single (op? : Lexeme → Option BinaryOp) (operand : Parse Expr) : Parse Expr := do
  let left ← operand
  match op? (← peek) with
  | none => return left
  | some op =>
    advance
    let right ← operand
    return .join op left right

/-- Items up to the mark `close`, with commas between them and perhaps one behind the last. -/
def commaItems {α : Type} (close : Mark) (item : Parse α) : List Token → Parse (List α)
  | [] => return []
  | _ :: bound => do
    let l ← peek
    if l = .mark close ∨ l = .eof then return []
    let x ← item
    if ← accept (.mark .comma) then return x :: (← commaItems close item bound)
    return [x]

def commaList {α : Type} (close : Mark) (item : Parse α) : Parse (List α) := do
  let items ← commaItems close item (← remaining)
  let _ ← expect (.mark close)
  return items

/-! ### Atoms -/

def plainText? : List Fragment → Option String
  | [] => some ""
  | .text s :: fs => (plainText? fs).map (s ++ ·)
  | .hole _ :: _ => none

def literal (loc : Location) (fs : List Fragment) : Expr :=
  match plainText? fs with
  | some s => .scalar loc (.string s)
  | none => .interpolation loc fs

def entryName : Parse String := do
  match ← peek with
  | .name s =>
    advance
    return s
  | .text fs => match plainText? fs with
    | some s =>
      advance
      return s
    | none => fail .interpolatedKey
  | _ => fail .entryName

def entry (again : Again) : Parse (String × Expr) := do
  let name ← entryName
  let _ ← expect (.mark .colon)
  return (name, ← again .sequence)

def param (again : Again) : Parse (String × Option Expr) := do
  let (name, _) ← expectName .parameterName
  if ← accept (.mark .colon) then return (name, some (← again .sequence))
  return (name, none)

def body (again : Again) (brace : Span) : Parse Expr := do
  if (← peek) = .mark .closeBrace then return .scalar (← location brace) .undefined
  again .sequence

def lambda (again : Again) (start : Span) : Parse Expr := do
  let _ ← expect (.mark .openParen)
  let params ← commaList .closeParen (param again)
  let brace ← expect (.mark .openBrace)
  let body ← body again brace
  let _ ← expect (.mark .closeBrace)
  return .lambda (← locationFrom start) params body

def scopeSelector? : Lexeme → Option ScopeSelector
  | .keyword .local => some .inner
  | .keyword .outer => some .outer
  | .keyword .global => some .outermost
  | _ => none

def scalar? : Lexeme → Option Scalar
  | .number n => some (.number n)
  | .keyword .undef => some .undefined
  | .keyword .true => some (.boolean true)
  | .keyword .false => some (.boolean false)
  | _ => none

def atom? (loc : Location) (l : Lexeme) : Option Expr :=
  match l with
  | .name s => some (.var loc s)
  | .text fs => some (literal loc fs)
  | l => match scalar? l with
    | some v => some (.scalar loc v)
    | none => (scopeSelector? l).map (.scopeVariables loc)

def compound (again : Again) (start : Span) : Parse Expr := do
  if ← accept (.mark .openBracket) then
    let items ← commaList .closeBracket (again .sequence)
    return .list (← locationFrom start) items
  if ← accept (.mark .openBrace) then
    let entries ← commaList .closeBrace (entry again)
    return .map (← locationFrom start) entries
  if ← accept (.keyword .fun) then lambda again start
  else if ← accept (.mark .openParen) then
    let inner ← again .sequence
    let _ ← expect (.mark .closeParen)
    return inner
  else fail .expression

def primary (again : Again) : Parse Expr := do
  let start ← here
  let l ← peek
  match atom? (← location start) l with
  | some e =>
    advance
    return e
  | none => compound again start

/-! ### Calls and subscripts -/

/-- An argument, with its name if it has one. Behind a named argument each one must be named. -/
def argument (again : Again) (seen : Bool) : Parse (Option String × Expr) := do
  match ← acceptNameBefore .colon with
  | some name => return (some name, ← again .sequence)
  | none => if seen then fail .positionalAfterNamed else return (none, ← again .sequence)

def addArgument (arg : Option String × Expr) (others : List Expr × List (String × Expr)) :
    List Expr × List (String × Expr) :=
  match arg with
  | (some name, e) => (others.1, (name, e) :: others.2)
  | (none, e) => (e :: others.1, others.2)

def argumentItems (again : Again) : List Token → Bool → Parse (List Expr × List (String × Expr))
  | [], _ => return ([], [])
  | _ :: bound, seen => do
    let arg ← argument again seen
    if ← accept (.mark .comma) then return addArgument arg (← argumentItems again bound arg.1.isSome)
    return addArgument arg ([], [])

def arguments (again : Again) : Parse (List Expr × List (String × Expr)) := do
  if (← peek) = .mark .closeParen then return ([], [])
  argumentItems again (← remaining) false

def suffixes (again : Again) : List Token → Expr → Parse Expr
  | [], e => return e
  | _ :: bound, e => do
    if ← accept (.mark .openParen) then
      let (positional, named) ← arguments again
      let close ← expect (.mark .closeParen)
      let loc ← location (e.location.span.union close)
      suffixes again bound (.call loc e positional named)
    else if ← accept (.mark .openBracket) then
      let subscript ← again .sequence
      let close ← expect (.mark .closeBracket)
      let loc ← location (e.location.span.union close)
      suffixes again bound (.binary loc .subscript e subscript)
    else if ← accept (.mark .dot) then
      let (name, span) ← expectName .entryAfterDot
      suffixes again bound (.join .subscript e (.scalar (← location span) (.string name)))
    else return e

def suffixed (again : Again) : Parse Expr := do
  let e ← primary again
  suffixes again (← remaining) e

/-! ### Operators -/

def unaryOp? : Lexeme → Option UnaryOp
  | .keyword .count => some .count
  | .mark .hash => some .count
  | .keyword .string => some (.convert .string)
  | .keyword .boolean => some (.convert .boolean)
  | .keyword .number => some (.convert .number)
  | .keyword .list => some (.convert .list)
  | .keyword .map => some (.convert .map)
  | .keyword .sorted => some (.reorder .sort)
  | .keyword .reversed => some (.reorder .reverse)
  | .keyword .shuffled => some (.reorder .shuffle)
  | _ => none

def unary (again : Again) : Parse Expr := do
  let start ← here
  match unaryOp? (← peek) with
  | none => suffixed again
  | some op =>
    advance
    let operand ← again .unary
    return .unary (← locationFrom start) op operand

def diceOp? : Lexeme → Option BinaryOp
  | .keyword .d => some .dice
  | _ => none

def firstDie (again : Again) : Parse Expr := do
  let start ← here
  if ← accept (.keyword .d) then
    let die ← unary again
    return .unary (← locationFrom start) .die die
  unary again

def dice (again : Again) : Parse Expr := do
  let left ← firstDie again
  chainFrom diceOp? (unary again) (← remaining) left

def drawing (again : Again) : Parse Expr := do
  let start ← here
  if ← accept (.keyword .draw) then
    if ← accept (.keyword .from) then
      let operand ← dice again
      return .unary (← locationFrom start) .draw operand
    let count ← dice again
    let _ ← expect (.keyword .from)
    let operand ← dice again
    return .binary (← locationFrom start) .drawMany count operand
  dice again

def selector? : Lexeme → Option Selector
  | .keyword .highest => some .highest
  | .keyword .lowest => some .lowest
  | .keyword .first => some .first
  | .keyword .last => some .last
  | _ => none

def best (again : Again) : Parse Expr := do
  let start ← here
  match selector? (← peek) with
  | none => drawing again
  | some s =>
    advance
    if ← accept (.keyword .of) then
      let operand ← drawing again
      return .unary (← locationFrom start) (.best s) operand
    let count ← again .disjunction
    let _ ← expect (.keyword .of)
    let operand ← drawing again
    return .binary (← locationFrom start) (.bestOf s) count operand

def signOp? : Lexeme → Option UnaryOp
  | .mark .plus => some .plus
  | .mark .minus => some .minus
  | _ => none

def sign (again : Again) : Parse Expr := do
  let start ← here
  match signOp? (← peek) with
  | none => best again
  | some op =>
    advance
    let operand ← best again
    return .unary (← locationFrom start) op operand

def multiplicativeOp? : Lexeme → Option BinaryOp
  | .mark .star => some (.arithmetic .mul)
  | .mark .slash => some (.arithmetic .div)
  | .mark .percent => some (.arithmetic .mod)
  | _ => none

def additiveOp? : Lexeme → Option BinaryOp
  | .mark .plus => some (.arithmetic .add)
  | .mark .minus => some (.arithmetic .sub)
  | _ => none

def rangeOp? : Lexeme → Option BinaryOp
  | .mark .dots => some .range
  | _ => none

def appendOp? : Lexeme → Option BinaryOp
  | .mark .append => some .append
  | _ => none

def indexOfOp? : Lexeme → Option BinaryOp
  | .keyword .in => some .indexOf
  | _ => none

def comparisonOp? : Lexeme → Option BinaryOp
  | .mark .equal => some (.compare .eq)
  | .mark .notEqual => some (.compare .ne)
  | .mark .less => some (.compare .lt)
  | .mark .greater => some (.compare .gt)
  | .mark .atMost => some (.compare .le)
  | .mark .atLeast => some (.compare .ge)
  | .mark .same => some .same
  | .mark .notSame => some .notSame
  | _ => none

def andOp? : Lexeme → Option BinaryOp
  | .keyword .and => some .and
  | _ => none

def orOp? : Lexeme → Option BinaryOp
  | .keyword .or => some .or
  | _ => none

def assignOp? : Lexeme → Option BinaryOp
  | .mark .assign => some .assign
  | _ => none

def multiplicative (again : Again) : Parse Expr := chain multiplicativeOp? (sign again)

def additive (again : Again) : Parse Expr := chain additiveOp? (multiplicative again)

def range (again : Again) : Parse Expr := single rangeOp? (additive again)

def append (again : Again) : Parse Expr := single appendOp? (range again)

def indexOf (again : Again) : Parse Expr := single indexOfOp? (append again)

def comparison (again : Again) : Parse Expr := single comparisonOp? (indexOf again)

def negation (again : Again) : Parse Expr := do
  let start ← here
  if ← accept (.keyword .not) then
    let operand ← again .negation
    return .unary (← locationFrom start) .not operand
  comparison again

def conjunction (again : Again) : Parse Expr := chain andOp? (negation again)

def disjunction (again : Again) : Parse Expr := chain orOp? (conjunction again)

/-! ### Control, outputs and sequences -/

def optional (again : Again) (k : Keyword) : Parse (Option Expr) := do
  if ← accept (.keyword k) then return some (← disjunction again)
  return none

def loopNames : Parse (Option String × String × Span) := do
  let (name, span) ← expectName .loopVariable
  if ← accept (.mark .comma) then
    let (item, itemSpan) ← expectName .itemVariable
    return (some name, item, itemSpan)
  return (none, name, span)

/-- A loop behind its `for`. Without an expression before it the loop collects its items. -/
def forEach (again : Again) (start : Span) (out : Option Expr) : Parse Expr := do
  let (index, item, itemSpan) ← loopNames
  let _ ← expect (.keyword .in)
  let container ← disjunction again
  let condition ← optional again .if
  let itself := .var (← location itemSpan) item
  return .forEach (← locationFrom start) index item (out.getD itself) container condition

def conditional (again : Again) (start : Span) : Parse Expr := do
  let condition ← disjunction again
  let _ ← expect (.keyword .then)
  let whenTrue ← disjunction again
  let _ ← expect (.keyword .else)
  let whenFalse ← again .control
  return .conditional (← locationFrom start) condition whenTrue whenFalse

def whileLoop (again : Again) (start : Span) : Parse Expr := do
  let condition ← disjunction again
  let _ ← expect (.keyword .repeat)
  let body ← disjunction again
  let limit ← optional again .limit
  return .repeating (← locationFrom start) .before body condition limit

def repeatLoop (again : Again) (start : Span) : Parse Expr := do
  let body ← disjunction again
  if ← accept (.keyword .while) then
    let condition ← disjunction again
    let limit ← optional again .limit
    return .repeating (← locationFrom start) .after body condition limit
  if ← accept (.keyword .if) then
    let condition ← disjunction again
    let loc ← locationFrom start
    return .repeating loc .once body condition (some (.scalar loc (.number 1)))
  fail .repeatTest

def control (again : Again) : Parse Expr := do
  let start ← here
  if ← accept (.keyword .if) then conditional again start
  else if ← accept (.keyword .while) then whileLoop again start
  else if ← accept (.keyword .repeat) then repeatLoop again start
  else if ← accept (.keyword .for) then forEach again start none
  else
    let e ← disjunction again
    if ← accept (.keyword .for) then forEach again e.location.span (some e)
    else return e

def assignment (again : Again) : Parse Expr := single assignOp? (control again)

def outputType? : Lexeme → Option OutputType
  | .keyword .undef => some (.kind .undefined)
  | .keyword .string => some (.kind .string)
  | .keyword .boolean => some (.kind .boolean)
  | .keyword .number => some (.kind .number)
  | .keyword .list => some (.kind .list)
  | .keyword .map => some (.kind .map)
  | .keyword .fun => some (.kind .function)
  | .name s => if s = "native" then some .native else none
  | _ => none

def outputType : Parse OutputType := do
  match outputType? (← peek) with
  | some t =>
    advance
    return t
  | none => fail .outputType

def optionalType : Parse (Option OutputType) := do
  if ← accept (.keyword .as) then return some (← outputType)
  return none

def optionalName (again : Again) : Parse (Option Expr) := do
  match ← peek with
  | .text _ => return some (← primary again)
  | _ => return none

def outputMode? : Lexeme → Option OutputMode
  | .keyword .roll => some .roll
  | .keyword .sample => some .sample
  | _ => none

def output (again : Again) : Parse Expr := do
  let start ← here
  match outputMode? (← peek) with
  | some mode =>
    advance
    let e ← assignment again
    let type ← optionalType
    let name ← optionalName again
    return .output (← locationFrom start) mode e type name
  | none =>
    if ← accept (.keyword .import) then
      let space ← acceptNameBefore .assign
      let address ← assignment again
      return .importing (← locationFrom start) space address
    assignment again

def endsSequence : Lexeme → Bool
  | .eof | .mark .separator | .mark .closeParen | .mark .closeBracket | .mark .closeBrace
  | .mark .comma => true
  | _ => false

def sequenceFrom (again : Again) : List Token → Expr → Parse Expr
  | [], left => return left
  | _ :: bound, left => do
    if ← accept (.mark .semicolon) then
      if endsSequence (← peek) then return left
      let right ← output again
      sequenceFrom again bound (.join .sequence left right)
    else return left

def sequence (again : Again) : Parse Expr := do
  let left ← output again
  sequenceFrom again (← remaining) left

/-- Expressions nested at most `depth` deep. Every level takes a token before it asks for a nested one,
so a depth of the number of tokens is never used up. -/
def parseAt : Nat → Level → Parse Expr
  | 0, _ => fail .nesting
  | depth + 1, level =>
    match level with
    | .sequence => sequence (parseAt depth)
    | .control => control (parseAt depth)
    | .disjunction => disjunction (parseAt depth)
    | .negation => negation (parseAt depth)
    | .unary => unary (parseAt depth)

/-! ### Programs -/

def atEnd (l : Lexeme) : Bool := l == .eof || l == .mark .separator

def statement : Parse Expr := do
  let e ← parseAt ((← get).rest.length + 1) .sequence
  if atEnd (← peek) then return e
  fail .trailing

def skipSection : List Token → Cursor → Cursor
  | [], c => c
  | _ :: bound, c => if atEnd c.lexeme then c else skipSection bound c.advance

def sections : Nat → Cursor → List (Except SyntaxError Expr)
  | 0, _ => []
  | fuel + 1, c =>
    if c.lexeme = .eof then []
    else if c.lexeme = .mark .separator then sections fuel c.advance
    else match statement c with
      | .ok e c => .ok e :: sections fuel c
      | .error err c => .error err :: sections fuel (skipSection c.rest c)

def error? : Except SyntaxError Expr → Option SyntaxError
  | .error e => some e
  | .ok _ => none

def expr? : Except SyntaxError Expr → Option Expr
  | .ok e => some e
  | .error _ => none

def program (source : String) (tokens : List Token) : Except (List SyntaxError) (List Expr) :=
  let outcomes := sections (tokens.length + 1) ⟨source, none, tokens⟩
  let errors := outcomes.filterMap error?
  if errors.isEmpty then .ok (outcomes.filterMap expr?) else .error errors

end Parser

/-- Reads a program: expressions with `---` between them. -/
def parse (source text : String) : Except (List SyntaxError) (List Expr) :=
  match lex text with
  | .error errors => .error (errors.map fun e => ⟨.lexical e.problem, ⟨source, e.span⟩⟩)
  | .ok tokens => Parser.program source tokens

end DiceLang

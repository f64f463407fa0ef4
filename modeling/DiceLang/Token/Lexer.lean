import DiceLang.Text.Blank
import DiceLang.Text.Decimal
import DiceLang.Token.Basic

/-! Reading tokens. A source text is cut into pieces that lie side by side and cover it: blank pieces,
tokens, and pieces that no token can be read from. -/

namespace DiceLang

inductive LexicalProblem where
  | numberRange
  | interpolation
  | unterminated
  | unexpected (c : Char)
deriving DecidableEq, Inhabited

def LexicalProblem.message : LexicalProblem → String
  | .numberRange => "Number literal out of range"
  | .interpolation => "Invalid interpolation in string literal"
  | .unterminated => "Unterminated string literal"
  | .unexpected c => "Unexpected character `" ++ c.toString ++ "`"

structure LexicalError where
  problem : LexicalProblem
  span : Span
deriving DecidableEq, Inhabited

namespace Lexer

inductive Reading where
  | blank
  | lexeme (l : Lexeme)
  | problem (p : LexicalProblem)
deriving DecidableEq, Inhabited

structure Piece where
  text : List Char
  reading : Reading
deriving DecidableEq, Inhabited

/-! ### Words -/

def isLetter (c : Char) : Bool := c.isAlpha || c == '_'

def isWordChar (c : Char) : Bool := c.isAlphanum || c == '_'

def isIdentifier : List Char → Bool
  | [] => false
  | c :: s => isLetter c && s.all isWordChar

/-- What may follow a `d` glued to its die: nothing, a capital, or digits only. -/
def isDieSuffix : List Char → Bool
  | [] => true
  | c :: s => c.isUpper || (c :: s).all Char.isDigit

def digitsPiece (s : List Char) : Piece :=
  match Decimal.int64? s with
  | some n => ⟨s, .lexeme (.number n)⟩
  | none => ⟨s, .problem .numberRange⟩

def namePiece (s : List Char) : Piece := ⟨s, .lexeme (.name (String.ofList s))⟩

def diePiece : Piece := ⟨['d'], .lexeme (.keyword .d)⟩

def dieType (s : List Char) : List Piece :=
  if s.isEmpty then [] else if s.all Char.isDigit then [digitsPiece s] else [namePiece s]

/-- The pieces of a word. A dice operator glued to its operands is cut off: `d6` is `d 6`, `dX` is
`d X` and `Nd6` is `N d 6`. -/
def wordPieces (w : List Char) : List Piece :=
  match Keyword.ofText? (String.ofList w) with
  | some k => [⟨w, .lexeme (.keyword k)⟩]
  | none =>
    match w with
    | 'd' :: s => if isDieSuffix s then diePiece :: dieType s else [namePiece w]
    | c :: 'd' :: s =>
      if c.isUpper && isDieSuffix s then namePiece [c] :: diePiece :: dieType s else [namePiece w]
    | _ => [namePiece w]

/-! ### String literals -/

inductive Stroke where
  | char (c : Char)
  | hole (inside : List Char)
deriving DecidableEq, Inhabited

def unescape : Char → Char
  | 'n' => '\n'
  | 't' => '\t'
  | c => c

/-- Reads a string literal behind its opening quote: its strokes and the text behind the closing quote.
The first argument is the text so far, last character first, of the hole that is open. -/
def strokes : Option (List Char) → List Char → Option (List Stroke × List Char)
  | _, [] => none
  | some inside, c :: s =>
    if c = '\x7d' then (strokes none s).map fun r => (.hole inside.reverse :: r.1, r.2)
    else strokes (some (c :: inside)) s
  | none, '"' :: s => some ([], s)
  | none, '\\' :: c :: s => (strokes none s).map fun r => (.char (unescape c) :: r.1, r.2)
  | none, ['\\'] => none
  | none, '\x7b' :: s => strokes (some []) s
  | none, c :: s => (strokes none s).map fun r => (.char c :: r.1, r.2)

def addChar (c : Char) : List Fragment → List Fragment
  | .text t :: fs => .text (c.toString ++ t) :: fs
  | fs => .text c.toString :: fs

/-- Joins characters to text; a hole must name a variable. -/
def fragments? : List Stroke → Option (List Fragment)
  | [] => some []
  | .char c :: s => (fragments? s).map (addChar c)
  | .hole inside :: s =>
    let name := Text.trim inside
    if isIdentifier name then (fragments? s).map (.hole (String.ofList name) :: ·) else none

def quotedPiece (s : List Char) : Piece :=
  match strokes none s with
  | none => ⟨'"' :: s, .problem .unterminated⟩
  | some (parts, rest) =>
    let text := '"' :: s.take (s.length - rest.length)
    match fragments? parts with
    | some fs => ⟨text, .lexeme (.text fs)⟩
    | none => ⟨text, .problem .interpolation⟩

/-! ### Pieces of a text -/

def isSpace (c : Char) : Bool := c == ' ' || c == '\t' || c == '\r' || c == '\n'

def isLineEnd (c : Char) : Bool := c == '\r' || c == '\n'

/-- The comment with which the text begins, up to the end of its line. A carriage return ends a line
only together with a line feed; before any other character there is no comment. -/
def comment? : List Char → Option (List Char)
  | '/' :: '/' :: s =>
    let line := s.takeWhile fun c => !isLineEnd c
    match s.drop line.length with
    | '\r' :: '\n' :: _ => some ('/' :: '/' :: line)
    | '\r' :: _ => none
    | _ => some ('/' :: '/' :: line)
  | _ => none

def markPiece (c : Char) (s : List Char) : Piece :=
  match Mark.leading? (c :: s) with
  | some m => ⟨m.text.toList, .lexeme (.mark m)⟩
  | none => ⟨[c], .problem (.unexpected c)⟩

def leading (c : Char) (s : List Char) : List Piece :=
  if isSpace c then [⟨c :: s.takeWhile isSpace, .blank⟩]
  else match comment? (c :: s) with
    | some line => [⟨line, .blank⟩]
    | none =>
      if c = '"' then [quotedPiece s]
      else if c.isDigit then [digitsPiece (c :: s.takeWhile Char.isDigit)]
      else if isLetter c then wordPieces (c :: s.takeWhile isWordChar)
      else [markPiece c s]

def width : List Piece → Nat
  | [] => 0
  | p :: ps => p.text.length + width ps

theorem wordPieces_width_pos (c : Char) (s : List Char) : 0 < width (wordPieces (c :: s)) := by
  unfold wordPieces
  split
  · simp [width]
  · split <;> try split
    all_goals
      simp only [width, namePiece, diePiece, List.length_cons, List.length_nil]
      omega

theorem markPiece_text_pos (c : Char) (s : List Char) : 0 < (markPiece c s).text.length := by
  unfold markPiece
  split
  next m _ =>
    cases m <;> decide
  · simp

theorem leading_width_pos (c : Char) (s : List Char) : 0 < width (leading c s) := by
  unfold leading
  split
  · simp [width]
  · split
    next line h =>
      unfold comment? at h
      split at h
      · simp only at h
        split at h <;> simp_all [width] <;> subst h <;> simp
      · simp at h
    · split
      · simp only [width, quotedPiece]
        split
        · simp
        · split <;> simp
      · split
        · simp only [width, digitsPiece]
          split <;> simp
        · split
          · exact wordPieces_width_pos c _
          · simpa [width] using markPiece_text_pos c s

def pieces : List Char → List Piece
  | [] => []
  | c :: s =>
    let front := leading c s
    front ++ pieces ((c :: s).drop (width front))
termination_by s => s.length
decreasing_by
  have := leading_width_pos c s
  simp only [List.length_drop, List.length_cons]
  omega

def place (p : Position) : List Piece → List (Reading × Span)
  | [] => []
  | x :: xs => (x.reading, ⟨p, p.after x.text⟩) :: place (p.after x.text) xs

def token? : Reading × Span → Option Token
  | (.lexeme l, span) => some ⟨l, span⟩
  | _ => none

def error? : Reading × Span → Option LexicalError
  | (.problem p, span) => some ⟨p, span⟩
  | _ => none

end Lexer

def lex (source : String) : Except (List LexicalError) (List Token) :=
  let text := source.toList
  let placed := Lexer.place .start (Lexer.pieces text)
  let errors := placed.filterMap Lexer.error?
  let finish := Position.start.after text
  if errors.isEmpty then .ok (placed.filterMap Lexer.token? ++ [⟨.eof, ⟨finish, finish⟩⟩])
  else .error errors

end DiceLang

import DiceLang.Place

/-! The words and marks of the language, and tokens. -/

namespace DiceLang

inductive Fragment where
  | text (s : String)
  | hole (name : String)
deriving DecidableEq, Inhabited

inductive Keyword where
  | undef | true | false
  | «if» | «then» | «else» | «for» | «in» | «while» | «repeat» | limit
  | «import» | roll | sample | as
  | «fun» | «local» | outer | global
  | of | «from» | draw | highest | lowest | first | last
  | count | string | boolean | number | list | map
  | sorted | reversed | shuffled
  | and | or | not
  | d
deriving DecidableEq, Inhabited

namespace Keyword

def text : Keyword → String
  | .undef => "undef"
  | .true => "true"
  | .false => "false"
  | .if => "if"
  | .then => "then"
  | .else => "else"
  | .for => "for"
  | .in => "in"
  | .while => "while"
  | .repeat => "repeat"
  | .limit => "limit"
  | .import => "import"
  | .roll => "roll"
  | .sample => "sample"
  | .as => "as"
  | .fun => "fun"
  | .local => "local"
  | .outer => "outer"
  | .global => "global"
  | .of => "of"
  | .from => "from"
  | .draw => "draw"
  | .highest => "highest"
  | .lowest => "lowest"
  | .first => "first"
  | .last => "last"
  | .count => "count"
  | .string => "string"
  | .boolean => "boolean"
  | .number => "number"
  | .list => "list"
  | .map => "map"
  | .sorted => "sorted"
  | .reversed => "reversed"
  | .shuffled => "shuffled"
  | .and => "and"
  | .or => "or"
  | .not => "not"
  | .d => "d"

def all : List Keyword :=
  [.undef, .true, .false, .if, .then, .else, .for, .in, .while, .repeat, .limit, .import, .roll,
    .sample, .as, .fun, .local, .outer, .global, .of, .from, .draw, .highest, .lowest, .first, .last,
    .count, .string, .boolean, .number, .list, .map, .sorted, .reversed, .shuffled, .and, .or, .not,
    .d]

def ofText? (word : String) : Option Keyword := all.find? fun k => k.text == word

end Keyword

inductive Mark where
  | separator | same | notSame | equal | notEqual | atMost | atLeast | append | dots
  | openParen | closeParen | openBracket | closeBracket | openBrace | closeBrace
  | comma | colon | dot | semicolon | assign | less | greater
  | plus | minus | star | slash | percent | hash
deriving DecidableEq, Inhabited

namespace Mark

def text : Mark → String
  | .separator => "---"
  | .same => "==="
  | .notSame => "!=="
  | .equal => "=="
  | .notEqual => "!="
  | .atMost => "<="
  | .atLeast => ">="
  | .append => "<<"
  | .dots => ".."
  | .openParen => "("
  | .closeParen => ")"
  | .openBracket => "["
  | .closeBracket => "]"
  | .openBrace => "\x7b"
  | .closeBrace => "\x7d"
  | .comma => ","
  | .colon => ":"
  | .dot => "."
  | .semicolon => ";"
  | .assign => "="
  | .less => "<"
  | .greater => ">"
  | .plus => "+"
  | .minus => "-"
  | .star => "*"
  | .slash => "/"
  | .percent => "%"
  | .hash => "#"

/-- Every mark, a longer one before those that begin it. -/
def all : List Mark :=
  [.separator, .same, .notSame, .equal, .notEqual, .atMost, .atLeast, .append, .dots, .openParen,
    .closeParen, .openBracket, .closeBracket, .openBrace, .closeBrace, .comma, .colon, .dot,
    .semicolon, .assign, .less, .greater, .plus, .minus, .star, .slash, .percent, .hash]

def leading? (s : List Char) : Option Mark := all.find? fun m => m.text.toList.isPrefixOf s

end Mark

inductive Lexeme where
  | name (name : String)
  | number (value : Int64)
  | text (fragments : List Fragment)
  | keyword (word : Keyword)
  | mark (mark : Mark)
  | eof
deriving DecidableEq, Inhabited

structure Token where
  lexeme : Lexeme
  span : Span
deriving DecidableEq, Inhabited

end DiceLang

/-! The kinds of values, and what an output may ask for. -/

namespace DiceLang

inductive Kind where
  | undefined | string | boolean | number | list | map | function
deriving DecidableEq, Inhabited

namespace Kind

def rank : Kind → Nat
  | .undefined => 0
  | .string => 1
  | .boolean => 2
  | .number => 3
  | .list => 4
  | .map => 5
  | .function => 6

def keyword : Kind → String
  | .undefined => "undef"
  | .string => "string"
  | .boolean => "boolean"
  | .number => "number"
  | .list => "list"
  | .map => "map"
  | .function => "fun"

def label : Kind → String
  | .undefined => "undefined"
  | .string => "string"
  | .boolean => "boolean"
  | .number => "number"
  | .list => "list"
  | .map => "map"
  | .function => "function"

def all : List Kind := [.undefined, .string, .boolean, .number, .list, .map, .function]

def ofText? (s : String) : Option Kind := all.find? fun k => k.keyword == s || k.label == s

end Kind

inductive OutputType where
  | native
  | kind (k : Kind)
deriving DecidableEq, Inhabited

namespace OutputType

def target : OutputType → Option Kind
  | .native => none
  | .kind k => some k

def keyword : OutputType → String
  | .native => "native"
  | .kind k => k.keyword

def ofText (s : String) : Except String OutputType :=
  if s = "native" then .ok .native
  else match Kind.ofText? s with
    | some k => .ok (.kind k)
    | none => .error ("unknown type `" ++ s ++ "`")

end OutputType

inductive OutputMode where
  | roll | sample
deriving DecidableEq, Inhabited

namespace OutputMode

def keyword : OutputMode → String
  | .roll => "roll"
  | .sample => "sample"

def ofText : String → Except String OutputMode
  | "roll" => .ok .roll
  | "sample" => .ok .sample
  | s => .error ("unknown output mode `" ++ s ++ "`")

end OutputMode

end DiceLang

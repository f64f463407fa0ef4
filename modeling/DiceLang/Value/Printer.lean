import DiceLang.Expr.Printer
import DiceLang.Value.Basic

/-! Values as source text and as expressions. -/

namespace DiceLang.Heap

/-- The text of a value inside the containers of `path`. A container met again inside itself is written
`undef`. -/
def textWithin (h : Heap) : Nat → List Container → Value → String
  | 0, _, _ => ""
  | fuel + 1, path, v =>
    match v with
    | .scalar s => Printer.scalar s
    | .function _ _ f _ => f.source
    | .list r =>
      if .list r ∈ path then "undef"
      else "[" ++ ", ".intercalate ((h.items r).map (h.textWithin fuel (.list r :: path))) ++ "]"
    | .map r =>
      if .map r ∈ path then "undef"
      else
        let entry (e : String × Value) : String :=
          Printer.key e.1 ++ ": " ++ h.textWithin fuel (.map r :: path) e.2
        "\x7b" ++ ", ".intercalate ((h.entries r).map entry) ++ "\x7d"

def text (h : Heap) (v : Value) : String := h.textWithin (h.size + 1) [] v

def exprWithin (h : Heap) : Nat → Value → Option Expr
  | 0, _ => none
  | depth + 1, v =>
    match v with
    | .scalar s => some (.scalar .builtin s)
    | .function _ _ f _ => some (.lambda .builtin f.params f.body)
    | .list r => ((h.items r).mapM (h.exprWithin depth)).map (.list .builtin)
    | .map r =>
      let entry (e : String × Value) : Option (String × Expr) :=
        (h.exprWithin depth e.2).map fun x => (e.1, x)
      ((h.entries r).mapM entry).map (.map .builtin)

/-- The expression that makes a fresh copy of a value. There is none for a value that contains itself:
only such a value is nested deeper than there are containers. -/
def expr? (h : Heap) (v : Value) : Option Expr := h.exprWithin (h.size + 1) v

end DiceLang.Heap

import DiceLang.Text.Blank
import DiceLang.Text.Decimal
import DiceLang.Value.Basic

/-! Folding a value over the leaves inside its containers, and the scalars that conversions give. -/

namespace DiceLang

namespace Scalar

def toText : Scalar → String
  | .undefined => ""
  | .string s => s
  | .boolean true => "true"
  | .boolean false => ""
  | .number n => Decimal.ofInt64 n

/-- The number that a scalar stands for. A text that is not the decimal text of a number counts as zero. -/
def toNumber : Scalar → Int64
  | .undefined => 0
  | .string s => (Decimal.int64? (Text.trim s.toList)).getD 0
  | .boolean true => 1
  | .boolean false => 0
  | .number n => n

def isTrue : Scalar → Bool
  | .undefined => false
  | .string s => !s.isEmpty
  | .boolean b => b
  | .number n => n != 0

end Scalar

structure Folding (m : Type → Type) (α : Type) where
  contents : Container → m (List Value)
  leaf : Value → m α
  zero : α
  add : α → α → α
  tooDeep : m α

/-- Folds a value inside the containers of `path`. A container met again inside itself adds
nothing; the elements of each are those it has when it is entered. -/
def Folding.within {m : Type → Type} [Monad m] {α : Type} (f : Folding m α) :
    Nat → List Container → Value → m α
  | 0, _, _ => f.tooDeep
  | depth + 1, path, v =>
    match v.container? with
    | none => f.leaf v
    | some c =>
      if c ∈ path then pure f.zero
      else do
        let step (acc : α) (x : Value) : m α := return f.add acc (← f.within depth (c :: path) x)
        (← f.contents c).foldlM step f.zero

namespace Heap

def numberFolding (h : Heap) : Folding Id Int64 where
  contents := h.contents
  leaf v := (v.scalar?.map Scalar.toNumber).getD 0
  zero := 0
  add := (· + ·)
  tooDeep := 0

def numberView (h : Heap) (v : Value) : Int64 := (h.numberFolding.within (h.size + 1) [] v).run

def isTrue (h : Heap) : Value → Bool
  | .scalar v => v.isTrue
  | .list r => !(h.items r).isEmpty
  | .map r => !(h.entries r).isEmpty
  | .function .. => true

def toList (h : Heap) : Value → ListRef × Heap
  | .list r => (r, h)
  | .map r => h.newList (Entries.values (h.entries r))
  | .undefined => h.newList []
  | v => h.newList [v]

def numbered (items : List Value) : List (String × Value) :=
  items.zipIdx.map fun x => ("_" ++ toString x.2, x.1)

def toMap (h : Heap) : Value → MapRef × Heap
  | .map r => (r, h)
  | .list r => h.newMap (Entries.ofList (numbered (h.items r)))
  | .undefined => h.newMap []
  | v => h.newMap [("_", v)]

end Heap

end DiceLang

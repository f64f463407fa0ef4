import DiceLang.Entries
import DiceLang.Expr.Basic

/-! Values and the heap. Lists and maps are shared: a value refers to them, the heap holds them. -/

namespace DiceLang

structure ListRef where
  index : Nat
deriving DecidableEq, Inhabited

structure MapRef where
  index : Nat
deriving DecidableEq, Inhabited

structure ScopeId where
  index : Nat
deriving DecidableEq, Inhabited

inductive Value where
  | scalar (value : Scalar)
  | list (ref : ListRef)
  | map (ref : MapRef)
  /-- A function made in `scope`. Two functions are the same only if they have one identity; the owner
  is the container from which it was read. -/
  | function (identity : Nat) (scope : ScopeId) (lambda : Lambda) (owner : Value)
deriving Inhabited

inductive Container where
  | list (ref : ListRef)
  | map (ref : MapRef)
deriving DecidableEq, Inhabited

namespace Value

@[match_pattern] abbrev undefined : Value := .scalar .undefined

@[match_pattern] abbrev string (s : String) : Value := .scalar (.string s)

@[match_pattern] abbrev boolean (b : Bool) : Value := .scalar (.boolean b)

@[match_pattern] abbrev number (n : Int64) : Value := .scalar (.number n)

def kind : Value → Kind
  | .scalar v => v.kind
  | .list _ => .list
  | .map _ => .map
  | .function .. => .function

def container? : Value → Option Container
  | .list r => some (.list r)
  | .map r => some (.map r)
  | _ => none

def scalar? : Value → Option Scalar
  | .scalar v => some v
  | _ => none

end Value

structure Heap where
  lists : Array (List Value)
  maps : Array (List (String × Value))
deriving Inhabited

namespace Heap

def empty : Heap := ⟨#[], #[]⟩

def size (h : Heap) : Nat := h.lists.size + h.maps.size

def items (h : Heap) (r : ListRef) : List Value := h.lists.getD r.index []

def entries (h : Heap) (r : MapRef) : List (String × Value) := h.maps.getD r.index []

def newList (h : Heap) (items : List Value) : ListRef × Heap :=
  (⟨h.lists.size⟩, { h with lists := h.lists.push items })

def newMap (h : Heap) (entries : List (String × Value)) : MapRef × Heap :=
  (⟨h.maps.size⟩, { h with maps := h.maps.push entries })

def setList (h : Heap) (r : ListRef) (items : List Value) : Heap :=
  { h with lists := h.lists.setIfInBounds r.index items }

def setMap (h : Heap) (r : MapRef) (entries : List (String × Value)) : Heap :=
  { h with maps := h.maps.setIfInBounds r.index entries }

def contents (h : Heap) : Container → List Value
  | .list r => h.items r
  | .map r => Entries.values (h.entries r)

end Heap

end DiceLang

import DiceLang.Value.Basic

/-! The order of values: by kind first, then by content. Maps are ordered by their values alone. -/

namespace DiceLang

def Scalar.order : Scalar → Scalar → Ordering
  | .string a, .string b => compare a b
  | .boolean a, .boolean b => compare a b
  | .number a, .number b => compare a.toInt b.toInt
  | a, b => compare a.kind.rank b.kind.rank

namespace Heap

def orderLists (order : Value → Value → Ordering) : List Value → List Value → Ordering
  | [], [] => .eq
  | [], _ :: _ => .lt
  | _ :: _, [] => .gt
  | a :: as, b :: bs =>
    match order a b with
    | .eq => orderLists order as bs
    | o => o

/-- The order of two values that lie inside the containers of `path`. Two containers that are met
again inside themselves nest in the same way, so they count as equal there. -/
def orderWithin (h : Heap) : Nat → List (Container × Container) → Value → Value → Ordering
  | 0, _, _, _ => .eq
  | fuel + 1, path, a, b =>
    match a, b with
    | .scalar a, .scalar b => a.order b
    | .function i .., .function j .. => compare i j
    | a, b =>
      if a.kind ≠ b.kind then compare a.kind.rank b.kind.rank
      else match a.container?, b.container? with
        | some x, some y =>
          if x = y ∨ (x, y) ∈ path then .eq
          else orderLists (h.orderWithin fuel ((x, y) :: path)) (h.contents x) (h.contents y)
        | _, _ => .eq

/-- No path holds a pair of containers twice, so their number bounds the depth. Of the identities of functions
only matters that they differ; two runs that are compared give their functions the same ones. -/
def order (h : Heap) (a b : Value) : Ordering := h.orderWithin (h.size * h.size + 1) [] a b

def same (h : Heap) (a b : Value) : Bool := h.order a b == .eq

def sort (h : Heap) (items : List Value) : List Value :=
  items.mergeSort fun a b => h.order a b != .gt

end Heap

end DiceLang

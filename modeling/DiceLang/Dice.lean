import DiceLang.Random.Generator
import DiceLang.Value.Order

/-! Throwing dice, selecting from lists, and ranges. -/

namespace DiceLang

inductive Throw where
  | face (value : Value)
  | call
  | unrollable (kind : Kind)
  | unsettled
deriving Inhabited

namespace Dice

/-- Throws a die that is no function. A number has that many faces, a list its elements, and a map its
entries, each as a map of one entry; without faces the result is undefined and nothing is drawn. -/
def throw (attempts : Nat) (die : Value) (h : Heap) (g : Generator) : Throw × Heap × Generator :=
  match die with
  | .number n =>
    if n ≤ 0 then (.face .undefined, h, g)
    else match g.below64 n.toInt.toNat attempts with
      | some (k, g) => (.face (.number (Int64.ofNat (k + 1))), h, g)
      | none => (.unsettled, h, g)
  | .list r =>
    let items := h.items r
    if items.isEmpty then (.face .undefined, h, g)
    else match g.below64 items.length attempts with
      | some (k, g) => (.face (items.getD k .undefined), h, g)
      | none => (.unsettled, h, g)
  | .map r =>
    let entries := h.entries r
    if entries.isEmpty then (.face .undefined, h, g)
    else match g.below64 entries.length attempts with
      | some (k, g) =>
        let (face, h) := h.newMap (entries[k]?).toList
        (.face (.map face), h, g)
      | none => (.unsettled, h, g)
  | .function .. => (.call, h, g)
  | .scalar v => (.unrollable v.kind, h, g)

def better (h : Heap) (wanted : Ordering) (best item : Value) : Value :=
  if h.order item best = wanted then item else best

def best (h : Heap) (selector : Selector) (items : List Value) : Value :=
  match items with
  | [] => .undefined
  | first :: rest =>
    match selector with
    | .first => first
    | .last => rest.getLastD first
    | .highest => rest.foldl (better h .gt) first
    | .lowest => rest.foldl (better h .lt) first

def ranked (h : Heap) (items : List Value) : List (Value × Nat) :=
  items.zipIdx.mergeSort fun a b => h.order a.1 b.1 != .gt

def inPlace (picked : List (Value × Nat)) : List Value :=
  (picked.mergeSort fun a b => a.2 ≤ b.2).map Prod.fst

/-- Up to `count` elements of a list, in the order in which the list has them. -/
def bestOf (h : Heap) (selector : Selector) (count : Int64) (items : List Value) : List Value :=
  let n := count.toInt.toNat
  if items.length ≤ n then items
  else match selector with
    | .first => items.take n
    | .last => items.drop (items.length - n)
    | .highest => inPlace ((ranked h items).drop (items.length - n))
    | .lowest => inPlace ((ranked h items).take n)

def range (start stop : Int64) : List Value :=
  let n := (stop.toInt - start.toInt).natAbs
  (List.range n).map fun i =>
    .number (if start ≤ stop then start + Int64.ofNat i else start - Int64.ofNat i)

end Dice

end DiceLang

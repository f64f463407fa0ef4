import DiceLang.Value.Fold
import DiceLang.Value.Order

/-! How often values were observed. Counters are kept in the order of first observation until the
distribution is aggregated; then they are sorted and know how many observations lie at or below and at
or above them. -/

namespace DiceLang

structure Counter where
  value : Value
  count : Nat
  atMost : Nat
  atLeast : Nat
  /-- The count when the distribution was last aggregated. -/
  counted : Nat
  /-- The total when the distribution was last aggregated. -/
  outOf : Nat
deriving Inhabited

namespace Counter

def single (v : Value) : Counter := ⟨v, 1, 0, 0, 0, 0⟩

def toFloat (n : Nat) : Float := (UInt64.ofNat n).toFloat

def share (c : Counter) (n : Nat) : Float :=
  if c.outOf = 0 then 0.0 else toFloat n / toFloat c.outOf

def relative (c : Counter) : Float := c.share c.counted

def relativeAtMost (c : Counter) : Float := c.share c.atMost

def relativeAtLeast (c : Counter) : Float := c.share c.atLeast

end Counter

structure Distribution where
  counters : List Counter
  total : Nat
  aggregated : Bool
deriving Inhabited

namespace Distribution

def empty : Distribution := ⟨[], 0, false⟩

def isEmpty (d : Distribution) : Bool := d.counters.isEmpty

def countIn (h : Heap) (v : Value) : List Counter → List Counter
  | [] => [.single v]
  | c :: cs => if h.same c.value v then { c with count := c.count + 1 } :: cs else c :: countIn h v cs

def incr (h : Heap) (d : Distribution) (v : Value) : Distribution :=
  ⟨countIn h v d.counters, d.total + 1, false⟩

def accumulate (total : Nat) : Nat → List Counter → List Counter
  | _, [] => []
  | before, c :: cs =>
    ⟨c.value, c.count, before + c.count, total - before, c.count, total⟩ ::
      accumulate total (before + c.count) cs

def sorted (h : Heap) (cs : List Counter) : List Counter :=
  cs.mergeSort fun a b => h.order a.value b.value != .gt

def aggregate (h : Heap) (d : Distribution) : Distribution :=
  if d.aggregated then d
  else ⟨accumulate d.total 0 (sorted h d.counters), d.total, true⟩

theorem aggregated_aggregate (h : Heap) (d : Distribution) : (d.aggregate h).aggregated = true := by
  rw [aggregate]
  split
  · assumption
  · rfl

theorem total_aggregate (h : Heap) (d : Distribution) : (d.aggregate h).total = d.total := by
  rw [aggregate]
  split <;> rfl

/-! The statistics below are those of an aggregated distribution. -/

/-- Sums from the left. The sum of nothing is the negative zero. -/
def sum (xs : List Float) : Float := xs.foldl (· + ·) (-0.0)

def number (h : Heap) (c : Counter) : Float := (h.numberView c.value).toFloat

def mean (h : Heap) (d : Distribution) : Float :=
  sum (d.counters.map fun c => number h c * c.relative)

def squaredDeviation (h : Heap) (mean : Float) (c : Counter) : Float :=
  let x := (number h c - mean) * c.relative
  x * x

/-- The sum of the squares of the weighted deviations. -/
def stddev (h : Heap) (d : Distribution) : Float :=
  let m := mean h d
  sum (d.counters.map (squaredDeviation h m))

def oftener (best c : Counter) : Counter := if best.count < c.count then c else best

def mode (d : Distribution) : Option Value :=
  match d.counters with
  | [] => none
  | c :: cs => some (cs.foldl oftener c).value

def reachesHalf (c : Counter) : Bool := c.outOf ≤ 2 * c.atMost && 0 < c.outOf

def leavesHalf (c : Counter) : Bool := c.outOf ≤ 2 * c.atLeast && 0 < c.outOf

def medianLow (d : Distribution) : Option Value :=
  (d.counters.find? reachesHalf <|> d.counters.reverse.find? leavesHalf <|>
    d.counters.getLast?).map Counter.value

def medianHigh (d : Distribution) : Option Value :=
  (d.counters.reverse.find? leavesHalf <|> d.counters.find? reachesHalf <|>
    d.counters.head?).map Counter.value

end Distribution

end DiceLang

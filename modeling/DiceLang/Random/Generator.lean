/-! Random words. The stream is the key stream of ChaCha with twelve rounds under a key that is
expanded from a seed of 64 bits. -/

namespace DiceLang

structure Row where
  a : UInt32
  b : UInt32
  c : UInt32
  d : UInt32
deriving DecidableEq, Inhabited

namespace Row

@[inline] def add (x y : Row) : Row := ⟨x.a + y.a, x.b + y.b, x.c + y.c, x.d + y.d⟩

@[inline] def xor (x y : Row) : Row := ⟨x.a ^^^ y.a, x.b ^^^ y.b, x.c ^^^ y.c, x.d ^^^ y.d⟩

@[inline] def rotateWord (x n : UInt32) : UInt32 := (x <<< n) ||| (x >>> (32 - n))

@[inline] def rotate (x : Row) (n : UInt32) : Row :=
  ⟨rotateWord x.a n, rotateWord x.b n, rotateWord x.c n, rotateWord x.d n⟩

@[inline] def turn (x : Row) : Row := ⟨x.b, x.c, x.d, x.a⟩

def words (x : Row) : List UInt32 := [x.a, x.b, x.c, x.d]

end Row

structure Block where
  first : Row
  second : Row
  third : Row
  fourth : Row
deriving DecidableEq, Inhabited

namespace Block

@[inline] def columns (s : Block) : Block :=
  let a := s.first.add s.second
  let d := (s.fourth.xor a).rotate 16
  let c := s.third.add d
  let b := (s.second.xor c).rotate 12
  let a := a.add b
  let d := (d.xor a).rotate 8
  let c := c.add d
  let b := (b.xor c).rotate 7
  ⟨a, b, c, d⟩

@[inline] def diagonals (s : Block) : Block :=
  let t := columns ⟨s.first, s.second.turn, s.third.turn.turn, s.fourth.turn.turn.turn⟩
  ⟨t.first, t.second.turn.turn.turn, t.third.turn.turn, t.fourth.turn⟩

def doubleRounds : Nat → Block → Block
  | 0, s => s
  | n + 1, s => doubleRounds n (diagonals (columns s))

def add (s t : Block) : Block :=
  ⟨s.first.add t.first, s.second.add t.second, s.third.add t.third, s.fourth.add t.fourth⟩

def words (s : Block) : List UInt32 :=
  s.first.words ++ s.second.words ++ s.third.words ++ s.fourth.words

def constants : Row := ⟨0x61707865, 0x3320646e, 0x79622d32, 0x6b206574⟩

def keyStream (low high : Row) (n : UInt64) : Block :=
  let start : Block := ⟨constants, low, high, ⟨n.toUInt32, (n >>> 32).toUInt32, 0, 0⟩⟩
  start.add (doubleRounds 6 start)

end Block

structure Generator where
  keyLow : Row
  keyHigh : Row
  block : UInt64
  pending : List UInt32
deriving DecidableEq, Inhabited

namespace Generator

def expand (state : UInt64) : UInt64 × UInt32 :=
  let state := state * 6364136223846793005 + 11634580027462260723
  let x := (((state >>> 18) ^^^ state) >>> 27).toUInt32
  let turn := (state >>> 59).toUInt32
  (state, (x >>> turn) ||| (x <<< ((32 - turn) % 32)))

def expandRow (state : UInt64) : UInt64 × Row :=
  let (state, a) := expand state
  let (state, b) := expand state
  let (state, c) := expand state
  let (state, d) := expand state
  (state, ⟨a, b, c, d⟩)

def ofSeed (seed : UInt64) : Generator :=
  let (state, low) := expandRow seed
  let (_, high) := expandRow state
  ⟨low, high, 0, []⟩

def word (g : Generator) : UInt32 × Generator :=
  match g.pending with
  | w :: ws => (w, { g with pending := ws })
  | [] =>
    match (Block.keyStream g.keyLow g.keyHigh g.block).words with
    | w :: ws => (w, { g with block := g.block + 1, pending := ws })
    | [] => (0, g)

def draw32 (g : Generator) : Nat × Generator :=
  let (w, g) := g.word
  (w.toNat, g)

def draw64 (g : Generator) : Nat × Generator :=
  let (low, g) := g.word
  let (high, g) := g.word
  (low.toNat + high.toNat * 0x100000000, g)

/-- The largest low half of a product that is accepted for a number below `n`. -/
def zone (bits n : Nat) : Nat := (n <<< (bits - 1 - n.log2)) - 1

/-- The number below `n` that a draw of `bits` bits gives, if the draw is accepted. -/
def reduce (bits n draw : Nat) : Option Nat :=
  let product := draw * n
  if product % (1 <<< bits) ≤ zone bits n then some (product >>> bits) else none

def below (bits n : Nat) (draw : Generator → Nat × Generator) :
    Nat → Generator → Option (Nat × Generator)
  | 0, _ => none
  | attempts + 1, g =>
    let (v, g) := draw g
    match reduce bits n v with
    | some k => some (k, g)
    | none => below bits n draw attempts g

def below32 (n attempts : Nat) (g : Generator) : Option (Nat × Generator) :=
  below 32 n draw32 attempts g

def below64 (n attempts : Nat) (g : Generator) : Option (Nat × Generator) :=
  below 64 n draw64 attempts g

/-- Swaps each place from `i` down to the second one with a place at or before it. -/
def shuffleFrom {α : Type} (attempts : Nat) :
    Nat → Array α → Generator → Option (Array α × Generator)
  | 0, items, g => some (items, g)
  | i + 1, items, g =>
    match below32 (i + 2) attempts g with
    | none => none
    | some (k, g) => shuffleFrom attempts i (items.swapIfInBounds (i + 1) k) g

def shuffle {α : Type} (attempts : Nat) (items : List α) (g : Generator) :
    Option (List α × Generator) :=
  (shuffleFrom attempts (items.length - 1) items.toArray g).map fun r => (r.1.toList, r.2)

end Generator

end DiceLang

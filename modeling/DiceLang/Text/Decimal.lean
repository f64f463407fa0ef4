/-! Decimal text of whole numbers. A number is read only if all of the text is digits after an optional
sign and its value is in range. -/

namespace DiceLang.Decimal

def digit (c : Char) : Nat := c.toNat - '0'.toNat

def ofDigits (s : List Char) : Nat :=
  s.foldl (fun n c => 10 * n + digit c) 0

def natural? (s : List Char) : Option Nat :=
  if s.isEmpty || !s.all Char.isDigit then none else some (ofDigits s)

def integer? : List Char → Option Int
  | '-' :: s => (natural? s).map fun n => -(n : Int)
  | '+' :: s => (natural? s).map fun n => (n : Int)
  | s => (natural? s).map fun n => (n : Int)

def inInt64 (n : Int) : Bool := Int64.minValue.toInt ≤ n && n ≤ Int64.maxValue.toInt

def int64? (s : List Char) : Option Int64 :=
  (integer? s).bind fun n => if inInt64 n then some (Int64.ofInt n) else none

def uint64? (s : List Char) : Option UInt64 :=
  let unsigned := match s with
    | '+' :: r => natural? r
    | r => natural? r
  unsigned.bind fun n => if n < UInt64.size then some (UInt64.ofNat n) else none

def ofInt64 (n : Int64) : String := toString n.toInt

end DiceLang.Decimal

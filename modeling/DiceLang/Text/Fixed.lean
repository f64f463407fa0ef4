/-! Decimal text with a fixed number of places. The exact value of the float is rounded to the nearest
decimal, and a half goes to the even neighbour. -/

namespace DiceLang.Fixed

def roundDiv (num den : Nat) : Nat :=
  let q := num / den
  let r := num % den
  if 2 * r < den then q
  else if den < 2 * r then q + 1
  else q + q % 2

def padLeft (width : Nat) (fill : Char) (s : String) : String :=
  String.ofList (List.replicate (width - s.length) fill) ++ s

def padRight (width : Nat) (s : String) : String :=
  s ++ String.ofList (List.replicate (width - s.length) ' ')

def point (places n : Nat) : String :=
  let digits := padLeft (places + 1) '0' (toString n)
  let whole := digits.length - places
  String.ofList (digits.toList.take whole) ++ "." ++ String.ofList (digits.toList.drop whole)

/-- A finite float without its sign: it is `significand * 2 ^ (power - 1075)`. -/
structure Parts where
  significand : Nat
  power : Nat
deriving DecidableEq

def parts (bits : Nat) : Parts :=
  let fraction := bits % (1 <<< 52)
  let exponent := (bits >>> 52) % (1 <<< 11)
  if exponent = 0 then ⟨fraction, 1⟩ else ⟨fraction + (1 <<< 52), exponent⟩

/-- The nearest multiple of `10 ^ -places`, counted in such units. -/
def units (places : Nat) (p : Parts) : Nat :=
  roundDiv ((p.significand * Nat.pow 10 places) <<< (p.power - 1075)) (1 <<< (1075 - p.power))

def text (places : Nat) (x : Float) : String :=
  if x.isNaN then "NaN"
  else
    let bits := x.toBits.toNat
    (if 1 <<< 63 ≤ bits then "-" else "") ++
      if x.isInf then "inf" else point places (units places (parts bits))

end DiceLang.Fixed

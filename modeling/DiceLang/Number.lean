import DiceLang.Expr.Basic

/-! Arithmetic on numbers of 64 bits. It wraps, and division rounds down. -/

namespace DiceLang

def floorDiv (a b : Int64) : Int64 :=
  let q := a / b
  if a % b ≠ 0 ∧ decide (a < 0) ≠ decide (b < 0) then q - 1 else q

def floorMod (a b : Int64) : Int64 :=
  let r := a % b
  if r ≠ 0 ∧ decide (r < 0) ≠ decide (b < 0) then r + b else r

def Arithmetic.apply? (op : Arithmetic) (a b : Int64) : Option Int64 :=
  match op with
  | .add => some (a + b)
  | .sub => some (a - b)
  | .mul => some (a * b)
  | .div => if b = 0 then none else some (floorDiv a b)
  | .mod => if b = 0 then none else some (floorMod a b)

def Comparison.holds (op : Comparison) (a b : Int64) : Bool :=
  match op with
  | .eq => a == b
  | .ne => a != b
  | .lt => a < b
  | .gt => b < a
  | .le => a ≤ b
  | .ge => b ≤ a

end DiceLang

/-
  The operators at work on integers of any size.

  1. `Operator.apply` — the value of an operator at two integers, or the reason why it has none.
  2. The quotient is rounded toward zero, and there is none by zero.
  3. An exponent is at least zero and below `exponentLimit`; it is checked whatever the base is, so
     that even a power of one needs an exponent within the limit.
-/
import Calculator.Error

namespace Calculator.Operator

/-- Exponents are below this bound, the 32nd power of two. -/
def exponentLimit : Int := 4294967296

/-- The value of an operator at two integers. -/
def apply : Operator → Int → Int → Except Error Int
  | .add, lhs, rhs => .ok (lhs + rhs)
  | .sub, lhs, rhs => .ok (lhs - rhs)
  | .mul, lhs, rhs => .ok (lhs * rhs)
  | .div, lhs, rhs => if rhs = 0 then .error .divisionByZero else .ok (lhs.tdiv rhs)
  | .pow, lhs, rhs =>
    if rhs < 0 then .error (.negativeExponent rhs)
    else if exponentLimit ≤ rhs then .error (.exponentTooLarge rhs)
    else .ok (Int.pow lhs rhs.toNat)

example : div.apply (-7) 2 = .ok (-3) := rfl
example : pow.apply 1 4294967296 = .error (.exponentTooLarge 4294967296) := rfl

end Calculator.Operator

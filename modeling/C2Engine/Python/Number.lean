import C2Engine.Python.Object
import Mathlib.Algebra.Order.Ring.Unbundled.Rat

/-!
# Floating-point numbers

A float is known by its value (`PyFloat`), so an operation on floats is the operation on the
values followed by the rounding to a double. The rounding is to the nearest double, a half to the
even one; the exponent of a double is at least -1074, and a value of 2^1024 or more is infinite.

## Main definitions

* `roundHalfEven`: the nearest integer.
* `toDouble`: the nearest double.
* `truediv`, `roundDigits`: `a / b` of integers and `round(x, n)`.
-/

namespace C2Engine.Python

/-- The nearest integer, a half to the even one. -/
def roundHalfEven (q : ℚ) : ℤ :=
  let f := q.floor
  let r := q - f
  if r < 1 / 2 then f else if 1 / 2 < r then f + 1 else if f % 2 = 0 then f else f + 1

/-- A power of two. -/
def twoPow (e : ℤ) : ℚ := if 0 ≤ e then 2 ^ e.toNat else 1 / 2 ^ (-e).toNat

/-- The exponent of a positive number, the one with `2 ^ e ≤ a < 2 ^ (e + 1)`. -/
def exponent (a : ℚ) : ℤ :=
  let e : ℤ := (a.num.toNat.log2 : ℤ) - a.den.log2
  if a < twoPow e then e - 1 else e

/-- The double nearest to a number. -/
def toDouble (q : ℚ) : PyFloat :=
  if q = 0 then .finite 0
  else
    let unit := twoPow (max (exponent |q|) (-1022) - 52)
    let r := roundHalfEven (|q| / unit) * unit
    if twoPow 1024 ≤ r then .inf (q < 0) else .finite (if q < 0 then -r else r)

/-- `a / b` of integers with `b` not zero; a quotient no double is near to overflows. -/
def truediv (a b : ℤ) : Except PyExc PyFloat :=
  match toDouble (a / b) with
  | .inf _ => .error .overflowError
  | x => .ok x

/-- `round(x, digits)`. -/
def roundDigits (x : PyFloat) (digits : ℕ) : PyFloat :=
  match x with
  | .finite q => toDouble (roundHalfEven (q * 10 ^ digits) / 10 ^ digits)
  | x => x

example : toDouble (1 / 10) = .finite (3602879701896397 / 36028797018963968) := by
  decide +kernel

example : toDouble (10 ^ 400) = .inf false := by decide +kernel

end C2Engine.Python

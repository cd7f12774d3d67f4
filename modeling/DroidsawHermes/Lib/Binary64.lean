-- SUMMARY: 64-bit floats as numbers, and their integers.
import Mathlib.Algebra.Group.Int.Defs

/-!
# Binary64

The number that a float stands for is its unpacked form, which tells the zeros apart.
-/

namespace Binary64

open Float.Model Float.Model.UnpackedFloat

/-- The number of a float. -/
def number (x : Float) : Float.Model.UnpackedFloat := x.toModel.unpack

/-- The float of an integer. -/
def ofInt (n : Int) : Float := .ofModel (.ofInt n)

/-- The integral part of a float, clamped to 64 bits. -/
def toInt (x : Float) : Int := x.toModel.toInt64.toInt

def negZero : Float := .ofModel (.pack (.zero .negative))

/-- The remainder of two integers. It has the sign of the first one, also where it is zero. -/
def remainder (l r : Int) : Float :=
  if l.tmod r = 0 ∧ l < 0 then negZero else ofInt (l.tmod r)

end Binary64

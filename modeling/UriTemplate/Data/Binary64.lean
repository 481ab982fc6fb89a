/-!
Floating-point numbers of 64 bits, as bits. A finite number is an integer below 2^53 times a power
of two, with a sign; everything said about it is said about these integers.
-/

namespace UriTemplate

/-- A floating-point number of 64 bits. -/
structure Binary64 where
  bits : UInt64
  deriving DecidableEq, Repr

namespace Binary64

def isNegative (x : Binary64) : Bool := x.bits.toNat / Nat.pow 2 63 == 1

/-- The exponent's field. -/
def exponentField (x : Binary64) : Nat := x.bits.toNat / Nat.pow 2 52 % Nat.pow 2 11

/-- The fraction's field. -/
def fraction (x : Binary64) : Nat := x.bits.toNat % Nat.pow 2 52

def isFinite (x : Binary64) : Bool := x.exponentField != 2047

def isNaN (x : Binary64) : Bool := !x.isFinite && x.fraction != 0

/-- The integer whose product with a power of two is the absolute value. -/
def significand (x : Binary64) : Nat :=
  if x.exponentField = 0 then x.fraction else Nat.pow 2 52 + x.fraction

/-- The exponent of that power of two. -/
def exponent (x : Binary64) : Int := max x.exponentField 1 - 1075

/-- The gap to the number below is half the gap to the number above. -/
def narrowBelow (x : Binary64) : Bool := x.fraction == 0 && 1 < x.exponentField

def isZero (x : Binary64) : Bool := x.isFinite && x.significand == 0

/-- The number is equal to an integer. -/
def equalsInt (x : Binary64) (n : Int) : Bool :=
  x.isFinite &&
    (x.significand * Nat.pow 2 x.exponent.toNat == n.natAbs * Nat.pow 2 (-x.exponent).toNat &&
      (n == 0 || x.isNegative == decide (n < 0)))

/-- The two numbers are equal: NaN is equal to nothing, and the two zeros are equal. -/
def equals (x y : Binary64) : Bool :=
  !x.isNaN && !y.isNaN && (x.bits == y.bits || (x.isZero && y.isZero))

end Binary64

end UriTemplate

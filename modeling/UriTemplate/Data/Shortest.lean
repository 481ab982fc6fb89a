import UriTemplate.Data.Binary64

/-!
The decimal with the fewest digits that reads back to a floating-point number. The reals that round
to m * 2^q form an interval around it, whose ends belong to it exactly if m is even. On each decimal
grid, from the coarsest on, the number's two neighbours are tried: the first grid with a neighbour
in the interval has the fewest digits, and of two neighbours the nearer one is taken, on a tie the
even one.
-/

namespace UriTemplate

/-- The number digits * 10^exp. -/
structure Decimal where
  digits : Nat
  exp : Int
  deriving DecidableEq, Repr

namespace Binary64

/-- The order of a * 10^i and n * 2^j. -/
def cmpScaled (a : Nat) (i : Int) (n : Nat) (j : Int) : Ordering :=
  compare (a * Nat.pow 10 i.toNat * Nat.pow 2 (-j).toNat)
    (n * Nat.pow 2 j.toNat * Nat.pow 10 (-i).toNat)

/-- The decimal lies among the reals that round to the absolute value. -/
def readsBack (x : Binary64) (d : Decimal) : Bool :=
  let low := 4 * x.significand - (if x.narrowBelow then 1 else 2)
  let high := 4 * x.significand + 2
  let even := x.significand % 2 == 0
  let l := cmpScaled d.digits d.exp low (x.exponent - 2)
  let h := cmpScaled d.digits d.exp high (x.exponent - 2)
  (l == .gt || (even && l == .eq)) && (h == .lt || (even && h == .eq))

/-- The largest integer n with n * 10^e at most the absolute value. -/
def floorOn (x : Binary64) (e : Int) : Nat :=
  x.significand * Nat.pow 2 x.exponent.toNat * Nat.pow 10 (-e).toNat /
    (Nat.pow 2 (-x.exponent).toNat * Nat.pow 10 e.toNat)

/-- The least k with the absolute value below 10^k, for a number that is not zero. The estimate
from the binary logarithm is at most two too low. -/
def scale (x : Binary64) : Int :=
  let k := (((x.significand.log2 : Int) + x.exponent) * 30103).fdiv 100000
  let below := fun j : Int => cmpScaled 1 j x.significand x.exponent == .gt
  if below k then k else if below (k + 1) then k + 1 else k + 2

/-- The neighbour on a grid that reads back, the better one if both do. -/
def onGrid? (x : Binary64) (e : Int) : Option Decimal :=
  let f := x.floorOn e
  let down : Decimal := ⟨f, e⟩
  let up : Decimal := ⟨f + 1, e⟩
  if x.readsBack down then
    if x.readsBack up then
      match cmpScaled (2 * f + 1) e (2 * x.significand) x.exponent with
      | .gt => some down
      | .lt => some up
      | .eq => some (if f % 2 = 0 then down else up)
    else some down
  else if x.readsBack up then some up
  else none

/-- The value itself as a decimal. -/
def exactly (x : Binary64) : Decimal :=
  if 0 ≤ x.exponent then ⟨x.significand * Nat.pow 2 x.exponent.toNat, 0⟩
  else ⟨x.significand * Nat.pow 5 (-x.exponent).toNat, x.exponent⟩

/-- The shortest decimal for the absolute value of a finite number. -/
def shortest (x : Binary64) : Decimal :=
  if x.significand = 0 then ⟨0, 0⟩
  else
    let k := x.scale
    ((List.range 17).findSome? fun (n : Nat) => x.onGrid? (k - (n + 1))).getD x.exactly

end Binary64

end UriTemplate

import UriTemplate.Data.Shortest
import UriTemplate.Text.CodePoint

/-!
How a floating-point number is written: with the fewest digits that read back, positionally from
10^-4 on and below 10^16, and otherwise with a signed exponent of at least two digits. A number
written positionally always shows a point.
-/

namespace UriTemplate

/-- Where positional notation begins and ends, by the exponent of the leading digit, and the least
count of digits of an exponent. -/
structure NumberFormat where
  plainFrom : Int
  plainBelow : Int
  exponentWidth : Nat

namespace NumberFormat

/-- The format of numbers in the texts of values. -/
def ofValues : NumberFormat where
  plainFrom := -4
  plainBelow := 16
  exponentWidth := 2

def zeros (n : Int) : List Char := List.replicate n.toNat '0'

/-- The digits around a point that stands after so many of them, with zeros where there are none. -/
def positional (ds : List Char) (point : Int) : List Char :=
  if point ≤ 0 then '0' :: '.' :: zeros (-point) ++ ds
  else
    let whole := ds.take point.toNat ++ zeros (point - ds.length)
    let part := ds.drop point.toNat
    whole ++ '.' :: (if part.isEmpty then ['0'] else part)

/-- The digits with a point after the first, and the exponent of that one. -/
def scientific (f : NumberFormat) (ds : List Char) (e : Int) : List Char :=
  let part := ds.drop 1
  let width := (toString e.natAbs).toList
  ds.take 1 ++ (if part.isEmpty then [] else '.' :: part) ++
    'e' :: (if e < 0 then '-' else '+') :: zeros (f.exponentWidth - width.length) ++ width

/-- A decimal in a format. Zeros at its end are no digits of it. -/
def write (f : NumberFormat) (d : Decimal) : List Char :=
  let all := (toString d.digits).toList
  let point : Int := all.length + d.exp
  let ds := (all.reverse.dropWhile (· == '0')).reverse
  if ds.isEmpty then ['0', '.', '0']
  else if f.plainFrom ≤ point - 1 ∧ point - 1 < f.plainBelow then positional ds point
  else f.scientific ds (point - 1)

end NumberFormat

namespace Binary64

/-- The text of a number. -/
def text (x : Binary64) : Text :=
  let sign : List Char := if x.isNegative && !x.isNaN then ['-'] else []
  let body :=
    if x.isFinite then NumberFormat.ofValues.write x.shortest
    else if x.isNaN then ['n', 'a', 'n']
    else ['i', 'n', 'f']
  (sign ++ body).map CodePoint.ofChar

end Binary64

end UriTemplate

/-!
Code points and texts. A text is a list of code points, and any code point may stand in it, a
surrogate too, so that every string a caller can hold has a text. Lengths and positions count
code points.
-/

namespace UriTemplate

/-- A number of the Unicode code space, surrogates included. -/
structure CodePoint where
  val : Nat
  isLt : val < 0x110000
  deriving DecidableEq, Repr

/-- A sequence of code points. -/
abbrev Text := List CodePoint

namespace CodePoint

theorem ext {a b : CodePoint} (h : a.val = b.val) : a = b := by
  cases a; cases b; cases h; rfl

theorem char_lt (c : Char) : c.toNat < 0x110000 := by
  have h : c.toNat.isValidChar := c.valid
  unfold Nat.isValidChar at h
  omega

/-- The code point of a character. -/
def ofChar (c : Char) : CodePoint := ⟨c.toNat, char_lt c⟩

instance : Coe Char CodePoint := ⟨ofChar⟩

/-- The code point numbered n, if the code space reaches that far. -/
def ofNat? (n : Nat) : Option CodePoint :=
  if h : n < 0x110000 then some ⟨n, h⟩ else none

/-- One of the code points set aside for halves of a pair, which stand for no character. -/
def isSurrogate (c : CodePoint) : Bool := 0xD800 ≤ c.val && c.val ≤ 0xDFFF

/-- One of the first 128 code points. -/
def isAscii (c : CodePoint) : Bool := c.val < 0x80

end CodePoint

/-- The text that a string constant spells. -/
def lit (s : String) : Text := s.toList.map CodePoint.ofChar

namespace Text

/-- The decimal digits of an integer, after a minus sign if it is negative. -/
def ofInt (n : Int) : Text := lit (toString n)

/-- The pieces between the occurrences of a separator: one more piece than separators. -/
def pieces (sep : CodePoint) : Text → List Text
  | [] => [[]]
  | c :: s =>
    if c = sep then [] :: pieces sep s
    else
      match pieces sep s with
      | p :: ps => (c :: p) :: ps
      | [] => [[c]]

/-- What stands before the first occurrence of a separator, and what stands after it. Without an
occurrence all of the text stands before it. -/
def cutAt (sep : CodePoint) : Text → Text × Text
  | [] => ([], [])
  | c :: s => if c = sep then ([], s) else ((c :: (cutAt sep s).1), (cutAt sep s).2)

end Text

end UriTemplate

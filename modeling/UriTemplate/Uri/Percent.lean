import UriTemplate.Uri.CharClass
import UriTemplate.Text.Cursor
import UriTemplate.Text.Utf8

/-!
Percent-encoding. A triplet is a percent sign and two hexadecimal digits and stands for an octet.
Encoding writes the octets of each character that may not stand for itself; it can leave triplets
that are already there alone. Reading takes one character from a run of triplets, and only if
their octets are the UTF-8 form of a character.
-/

namespace UriTemplate.Percent

/-- The value of a hexadecimal digit, of either case. -/
def hexValue (c : CodePoint) : Nat :=
  if c.val < 0x41 then c.val - 0x30
  else if c.val < 0x61 then c.val - 0x37
  else c.val - 0x57

/-- The uppercase hexadecimal digit of a number below sixteen. -/
def hexUpper (n : Nat) : CodePoint :=
  if h : n < 10 then ⟨0x30 + n, by omega⟩ else ⟨0x37 + n % 16, by omega⟩

/-- The three characters make a triplet. -/
def isTriplet (p a b : CodePoint) : Bool :=
  p = '%' && CharClass.hexDigit.admits a && CharClass.hexDigit.admits b

/-- The octet that two hexadecimal digits write. -/
def octet (a b : CodePoint) : UInt8 := (hexValue a * 16 + hexValue b).toUInt8

/-- The triplet of an octet, in uppercase. -/
def triplet (b : UInt8) : Text := ['%', hexUpper (b.toNat / 16), hexUpper (b.toNat % 16)]

/-- The triplets of the octets of a character. -/
def escape (c : CodePoint) : Text := (Utf8.encode c).flatMap triplet

/-- What is written for a character: itself if it is allowed, else the triplets of its octets. -/
def pieces (allowed : CodePoint → Bool) (c : CodePoint) : List Text :=
  if allowed c then [[c]] else (Utf8.encode c).map triplet

/-- A character that is allowed stands for itself, any other is escaped. -/
def encodeChar (allowed : CodePoint → Bool) (c : CodePoint) : Text := (pieces allowed c).flatten

theorem encodeChar_eq (allowed : CodePoint → Bool) (c : CodePoint) :
    encodeChar allowed c = if allowed c then [c] else escape c := by
  unfold encodeChar pieces
  split
  · rfl
  · rw [escape, List.flatMap_def]

/-- Escapes every character of a text that is not allowed. With the first argument true a triplet
of the text is copied, and its percent sign is not escaped. -/
def encode (keepsTriplets : Bool) (allowed : CodePoint → Bool) : Text → Text
  | p :: a :: b :: s =>
    if keepsTriplets && isTriplet p a b then p :: a :: b :: encode keepsTriplets allowed s
    else encodeChar allowed p ++ encode keepsTriplets allowed (a :: b :: s)
  | p :: s => encodeChar allowed p ++ encode keepsTriplets allowed s
  | [] => []

/-- A triplet lies ahead. -/
def atTriplet (k : Cursor) : Bool :=
  match k.rest with
  | p :: a :: b :: _ => isTriplet p a b
  | _ => false

/-- Reads triplets as long as their octets call for more, from inside a character or before one. -/
def scalarFrom (q : Utf8.State) (i : Nat) : Text → Option (CodePoint × Cursor)
  | p :: a :: b :: s =>
    if isTriplet p a b then
      match Utf8.step q (octet a b) with
      | .done c => some (c, ⟨i + 3, s⟩)
      | .next q' => scalarFrom q' (i + 3) s
      | .refused => none
    else none
  | _ => none

/-- The character that the run of triplets ahead writes, and the place after its triplets. -/
def scalar? (k : Cursor) : Option (CodePoint × Cursor) := scalarFrom .boundary k.pos k.rest

theorem length_scalarFrom {q : Utf8.State} {i : Nat} {s : Text} {c : CodePoint} {k : Cursor}
    (h : scalarFrom q i s = some (c, k)) : k.rest.length < s.length := by
  fun_induction scalarFrom q i s with
  | case1 => cases h; simp; omega
  | case2 q i p a b s _ q' _ ih =>
    have := ih h
    simp; omega
  | case3 => cases h
  | case4 => cases h
  | case5 => cases h

theorem length_scalar? {k k' : Cursor} {c : CodePoint} (h : scalar? k = some (c, k')) :
    k'.rest.length < k.rest.length :=
  length_scalarFrom h

end UriTemplate.Percent

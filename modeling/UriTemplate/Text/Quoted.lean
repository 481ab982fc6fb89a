import UriTemplate.Text.Printable

/-!
Quoted texts and octets, as descriptions of values show them. The quote is an apostrophe, or a
double quote where the content holds an apostrophe and no double quote. A backslash stands before
itself and before the quote, tab, line feed and carriage return have letters, and whatever else is
not printable is written by its number.
-/

namespace UriTemplate

namespace Text

/-- A number in lowercase hexadecimal, with a fixed count of digits. -/
def hex : Nat → Nat → Text
  | 0, _ => []
  | width + 1, n => hex width (n / 16) ++ [.ofChar (Nat.digitChar (n % 16))]

/-- The quote for a content. -/
def quoteOf (s : Text) : CodePoint :=
  if s.contains (.ofChar '\'') && !s.contains (.ofChar '"') then '"' else '\''

/-- The letter that stands after a backslash for a control character. -/
def controlLetter? (c : CodePoint) : Option CodePoint :=
  if c = '\t' then some 't'
  else if c = '\n' then some 'n'
  else if c = '\r' then some 'r'
  else none

/-- A character by its number, in the shortest of three forms. -/
def numbered (c : CodePoint) : Text :=
  if c.val < 0x100 then lit "\\x" ++ hex 2 c.val
  else if c.val < 0x10000 then lit "\\u" ++ hex 4 c.val
  else lit "\\U" ++ hex 8 c.val

/-- A character inside quotes. Some characters are shown, and some are marked by a backslash. -/
def quotedChar (shown marked : CodePoint → Bool) (c : CodePoint) : Text :=
  if c = '\\' || marked c then ['\\', c]
  else
    match controlLetter? c with
    | some l => ['\\', l]
    | none => if shown c then [c] else numbered c

/-- A text in quotes. -/
def quoted (s : Text) : Text :=
  let q := quoteOf s
  q :: s.flatMap (quotedChar CodePoint.isPrintable (· == q)) ++ [q]

/-- The text whose code points are the octets. -/
def ofOctets (bs : List UInt8) : Text :=
  bs.map fun b => ⟨b.toNat, Nat.lt_of_lt_of_le b.toNat_lt (by decide)⟩

/-- Octets in quotes. In a buffer that can change it is the apostrophe that a backslash marks,
whichever the quote. -/
def quotedOctets (changeable : Bool) (bs : List UInt8) : Text :=
  let s := ofOctets bs
  let q := quoteOf s
  let m : CodePoint := if changeable then '\'' else q
  let shown := fun c : CodePoint => 0x20 ≤ c.val && c.val < 0x7F
  let body := q :: s.flatMap (quotedChar shown (· == m)) ++ [q]
  if changeable then lit "bytearray(b" ++ body ++ lit ")" else lit "b" ++ body

end Text

end UriTemplate

import UriTemplate.Text.CodePoint

/-!
The character classes of RFC 3986 and RFC 6570. Each class is a set of code points; five of them
are given by listing characters, the others by ranges of numbers.
-/

namespace UriTemplate

/-- A class of characters that the URI syntax or the template syntax names. -/
inductive CharClass where
  | alpha
  | digit
  | hexDigit
  | unreserved
  | genDelim
  | subDelim
  | reserved
  | unreservedOrReserved
  | ucschar
  | iprivate
  | literal
  | varchar
  deriving DecidableEq, Repr

namespace CharClass

/-- The number lies between two bounds, both included. -/
def between (low high n : Nat) : Bool := low ≤ n && n ≤ high

/-- The number is that of a listed character. -/
def among (cs : List Char) (n : Nat) : Bool := cs.any fun c => c.toNat == n

def genDelims : List Char := [':', '/', '?', '#', '[', ']', '@']

def subDelims : List Char := ['!', '$', '&', '\'', '(', ')', '*', '+', ',', ';', '=']

/-- The punctuation that is unreserved. -/
def unreservedMarks : List Char := ['-', '.', '_', '~']

/-- Ranges of characters outside ASCII that may stand in an international identifier. -/
def ucscharRanges : List (Nat × Nat) :=
  [(0xA0, 0xD7FF), (0xF900, 0xFDCF), (0xFDF0, 0xFFEF),
   (0x10000, 0x1FFFD), (0x20000, 0x2FFFD), (0x30000, 0x3FFFD), (0x40000, 0x4FFFD),
   (0x50000, 0x5FFFD), (0x60000, 0x6FFFD), (0x70000, 0x7FFFD), (0x80000, 0x8FFFD),
   (0x90000, 0x9FFFD), (0xA0000, 0xAFFFD), (0xB0000, 0xBFFFD), (0xC0000, 0xCFFFD),
   (0xD0000, 0xDFFFD), (0xE1000, 0xEFFFD)]

/-- Ranges of private-use characters. -/
def iprivateRanges : List (Nat × Nat) :=
  [(0xE000, 0xF8FF), (0xF0000, 0xFFFFD), (0x100000, 0x10FFFD)]

/-- ASCII characters that a literal holds verbatim: all but controls, the space and the characters
quote, apostrophe, percent, less, greater, backslash, caret, grave accent, braces and bar. -/
def literalRanges : List (Nat × Nat) :=
  [(0x21, 0x21), (0x23, 0x24), (0x26, 0x26), (0x28, 0x3B), (0x3D, 0x3D), (0x3F, 0x5B),
   (0x5D, 0x5D), (0x5F, 0x5F), (0x61, 0x7A), (0x7E, 0x7E)]

def inRanges (rs : List (Nat × Nat)) (n : Nat) : Bool := rs.any fun r => between r.1 r.2 n

def isAlpha (n : Nat) : Bool := between 0x41 0x5A n || between 0x61 0x7A n

def isDigit (n : Nat) : Bool := between 0x30 0x39 n

def isHexDigit (n : Nat) : Bool := isDigit n || between 0x41 0x46 n || between 0x61 0x66 n

def isUnreserved (n : Nat) : Bool := isAlpha n || isDigit n || among unreservedMarks n

def isReserved (n : Nat) : Bool := among genDelims n || among subDelims n

/-- Membership of a class, as a test of the code point's number. -/
def holds : CharClass → Nat → Bool
  | alpha => isAlpha
  | digit => isDigit
  | hexDigit => isHexDigit
  | unreserved => isUnreserved
  | genDelim => among genDelims
  | subDelim => among subDelims
  | reserved => isReserved
  | unreservedOrReserved => fun n => isUnreserved n || isReserved n
  | ucschar => inRanges ucscharRanges
  | iprivate => inRanges iprivateRanges
  | literal => inRanges literalRanges
  | varchar => fun n => isAlpha n || isDigit n || n == 0x5F

/-- Membership of a class. -/
def admits (k : CharClass) (c : CodePoint) : Bool := k.holds c.val

/-- The class is given by listing characters, so that asking it takes a character. -/
def isListed : CharClass → Bool
  | unreserved | genDelim | subDelim | reserved | unreservedOrReserved => true
  | _ => false

/-- Membership for any integer. A number outside the code space lies in no range, and there is no
answer where a character has to be compared with it. -/
def ofInt? (k : CharClass) (n : Int) : Option Bool :=
  if 0 ≤ n ∧ n < 0x110000 then some (k.holds n.toNat)
  else if k.isListed then none
  else some false

end CharClass

end UriTemplate

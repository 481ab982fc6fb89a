import UriTemplate.Text.CodePoint

/-!
UTF-8, written and read. Writing gives every code point its one to four octets, a surrogate the
three that its number would have. Reading is a machine that takes one octet at a time; it refuses
overlong forms, surrogates and numbers outside the code space at the first octet that rules them
out, so that the octets before that one are a longest ill-formed piece.
-/

namespace UriTemplate.Utf8

/-- The octets of a code point. -/
def encode (c : CodePoint) : List UInt8 :=
  let n := c.val
  if n < 0x80 then [n.toUInt8]
  else if n < 0x800 then [(0xC0 + n / 0x40).toUInt8, (0x80 + n % 0x40).toUInt8]
  else if n < 0x10000 then
    [(0xE0 + n / 0x1000).toUInt8, (0x80 + n / 0x40 % 0x40).toUInt8, (0x80 + n % 0x40).toUInt8]
  else
    [(0xF0 + n / 0x40000).toUInt8, (0x80 + n / 0x1000 % 0x40).toUInt8,
     (0x80 + n / 0x40 % 0x40).toUInt8, (0x80 + n % 0x40).toUInt8]

/-- Where a reader stands between octets: between characters, or inside one whose first octets gave
some bits. There more continuation octets follow the next one, which lies between two bounds. -/
inductive State where
  | boundary
  | inside (more bits low high : Nat)
  deriving DecidableEq, Repr

/-- What an octet does to a reader: it completes a character, leads on, or cannot stand there. -/
inductive Step where
  | done (c : CodePoint)
  | next (q : State)
  | refused
  deriving DecidableEq, Repr

/-- The first octet of a character. -/
def first (n : Nat) : Step :=
  if h : n < 0x80 then .done ⟨n, by omega⟩
  else if n < 0xC2 then .refused
  else if n < 0xE0 then .next (.inside 0 (n - 0xC0) 0x80 0xBF)
  else if n = 0xE0 then .next (.inside 1 0 0xA0 0xBF)
  else if n = 0xED then .next (.inside 1 0xD 0x80 0x9F)
  else if n < 0xF0 then .next (.inside 1 (n - 0xE0) 0x80 0xBF)
  else if n = 0xF0 then .next (.inside 2 0 0x90 0xBF)
  else if n < 0xF4 then .next (.inside 2 (n - 0xF0) 0x80 0xBF)
  else if n = 0xF4 then .next (.inside 2 4 0x80 0x8F)
  else .refused

/-- One octet. -/
def step (q : State) (b : UInt8) : Step :=
  match q with
  | .boundary => first b.toNat
  | .inside more bits low high =>
    if low ≤ b.toNat ∧ b.toNat ≤ high then
      match more with
      | 0 =>
        match CodePoint.ofNat? (bits * 0x40 + (b.toNat - 0x80)) with
        | some c => .done c
        | none => .refused
      | k + 1 => .next (.inside k (bits * 0x40 + (b.toNat - 0x80)) 0x80 0xBF)
    else .refused

/-- The character that stands for octets which are no character. -/
def replacement : CodePoint := ⟨0xFFFD, by decide⟩

/-- The characters that an octet settles, and the state after it. An octet that cannot continue a
character closes the ill-formed piece before it and starts anew. -/
def feed (q : State) (b : UInt8) : Text × State :=
  match step q b with
  | .done c => ([c], .boundary)
  | .next q' => ([], q')
  | .refused =>
    match q with
    | .boundary => ([replacement], .boundary)
    | .inside .. =>
      match step .boundary b with
      | .done c => ([replacement, c], .boundary)
      | .next q' => ([replacement], q')
      | .refused => ([replacement, replacement], .boundary)

/-- What the end of the octets settles: a character that was begun stays ill-formed. -/
def flush : State → Text
  | .boundary => []
  | .inside .. => [replacement]

end UriTemplate.Utf8

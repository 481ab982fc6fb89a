import UriTemplate.Uri.Percent

/-!
Query strings, read as form data: pieces between ampersands, each a name and a value around its
first equals sign. A plus sign stands for a space. Triplets are octets, as ASCII characters are, and
each run of octets is read as UTF-8, with a replacement character for each longest ill-formed piece;
characters outside ASCII stand for themselves.
-/

namespace UriTemplate.Query

/-- Reads triplets and runs of octets, in a given state of the run. -/
def decodeFrom (q : Utf8.State) : Text → Text
  | p :: a :: b :: s =>
    if Percent.isTriplet p a b then
      let r := Utf8.feed q (Percent.octet a b)
      r.1 ++ decodeFrom r.2 s
    else if p.isAscii then
      let r := Utf8.feed q p.val.toUInt8
      r.1 ++ decodeFrom r.2 (a :: b :: s)
    else Utf8.flush q ++ p :: decodeFrom .boundary (a :: b :: s)
  | p :: s =>
    if p.isAscii then
      let r := Utf8.feed q p.val.toUInt8
      r.1 ++ decodeFrom r.2 s
    else Utf8.flush q ++ p :: decodeFrom .boundary s
  | [] => Utf8.flush q

/-- A name or a value as it was before it was put into a query. -/
def decode (s : Text) : Text :=
  decodeFrom .boundary (s.map fun (c : CodePoint) => if c = '+' then ' ' else c)

/-- The names and values of a query string in order. An empty piece is none, and a piece without an
equals sign has an empty value. -/
def pairs (s : Text) : List (Text × Text) :=
  ((s.pieces '&').filter fun p => !p.isEmpty).map fun p =>
    let c := p.cutAt '='
    (decode c.1, decode c.2)

/-- Each name once, in order of first occurrence, with all its values in order. -/
def grouped (ps : List (Text × Text)) : List (Text × List Text) :=
  (ps.map Prod.fst).eraseDups.map fun n => (n, (ps.filter fun p => p.1 == n).map Prod.snd)

end UriTemplate.Query

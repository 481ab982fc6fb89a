import UriTemplate.Data.NumberText
import UriTemplate.Binding.Value

/-!
Data that callers bind. A datum is anything a caller may hand over: the texts, numbers, sequences
and mappings that become values, values that are ready, and what cannot become one.
-/

namespace UriTemplate

/-- A datum. A stream is a sequence that can be read once, octets may be in a buffer that can
change, and an object is known by its type alone. -/
inductive Datum where
  | null
  | bool (b : Bool)
  | int (n : Int)
  | float (x : Binary64)
  | text (s : Text)
  | list (items : List Datum)
  | tuple (items : List Datum)
  | stream (items : List Datum)
  | map (entries : List (Datum × Datum))
  | octets (changeable : Bool) (content : List UInt8)
  | object (typeName : Text)
  | value (v : Value)

namespace Datum

/-! ### Texts -/

mutual

/-- The description of a datum, in which texts are quoted. -/
def written : Datum → Text
  | null => lit "None"
  | bool b => if b then lit "True" else lit "False"
  | int n => Text.ofInt n
  | float x => x.text
  | text s => s.quoted
  | list ds => Value.bracketed "[" "]" (writtenAll ds)
  | tuple ds => Value.tupled (writtenAll ds)
  | stream _ => lit "<generator>"
  | map es => Value.bracketed "\x7b" "\x7d" (writtenEntries es)
  | octets c bs => Text.quotedOctets c bs
  | object t => lit "<" ++ t ++ lit ">"
  | value v => v.described

def writtenAll : List Datum → List Text
  | [] => []
  | d :: ds => written d :: writtenAll ds

def writtenEntries : List (Datum × Datum) → List Text
  | [] => []
  | (k, v) :: es => (written k ++ lit ": " ++ written v) :: writtenEntries es

end

/-- The text of a datum: a text is its own. -/
def plain : Datum → Text
  | text s => s
  | d => d.written

/-- The text of a datum as a value or a member of one, where truth values are in lowercase. -/
def spelled : Datum → Text
  | bool b => if b then lit "true" else lit "false"
  | d => d.plain

/-- The name of a datum's type. -/
def typeName : Datum → Text
  | null => lit "NoneType"
  | bool _ => lit "bool"
  | int _ => lit "int"
  | float _ => lit "float"
  | text _ => lit "str"
  | list _ => lit "list"
  | tuple _ => lit "tuple"
  | stream _ => lit "generator"
  | map _ => lit "dict"
  | octets c _ => if c then lit "bytearray" else lit "bytes"
  | object t => t
  | value .undefined => lit "Absent"
  | value (.scalar _) => lit "Scalar"
  | value (.list _) => lit "ListValue"
  | value (.map _) => lit "AssocMap"

/-! ### Comparison -/

/-- The datum counts as nothing where something may be left out. -/
def isVoid : Datum → Bool
  | null => true
  | bool b => !b
  | int n => n == 0
  | float x => x.isZero
  | text s => s.isEmpty
  | list ds => ds.isEmpty
  | tuple ds => ds.isEmpty
  | map es => es.isEmpty
  | octets _ bs => bs.isEmpty
  | _ => false

def isNull : Datum → Bool
  | null => true
  | _ => false

/-- The integer that a datum is equal to, truth values being one and zero. -/
def int? : Datum → Option Int
  | bool b => some (if b then 1 else 0)
  | int n => some n
  | _ => none

/-- The datum is a floating-point number equal to an integer. -/
def isFloatOf : Datum → Int → Bool
  | float x, n => x.equalsInt n
  | _, _ => false

mutual

/-- The two are the same key: numbers by their value, whatever their types, texts, octets
and values by their content, tuples by their members. -/
def sameKey : Datum → Datum → Bool
  | null, null => true
  | bool b, d => (d.int? == some (if b then 1 else 0)) || isFloatOf d (if b then 1 else 0)
  | int n, d => (d.int? == some n) || isFloatOf d n
  | float x, float y => x.equals y
  | float x, d => d.int?.any x.equalsInt
  | text s, text t => s == t
  | tuple ds, tuple es => sameKeys ds es
  | octets _ a, octets _ b => a == b
  | value v, value w => v == w
  | _, _ => false

def sameKeys : List Datum → List Datum → Bool
  | [], [] => true
  | d :: ds, e :: es => sameKey d e && sameKeys ds es
  | _, _ => false

end

instance : BEq Datum := ⟨sameKey⟩

mutual

/-- The type that keeps a datum from being a member of a set or a key: its own or that of a
member. -/
def unhashable? : Datum → Option Text
  | list _ => some (lit "list")
  | map _ => some (lit "dict")
  | octets true _ => some (lit "bytearray")
  | tuple ds => unhashableIn? ds
  | _ => none

def unhashableIn? : List Datum → Option Text
  | [] => none
  | d :: ds => (unhashable? d).or (unhashableIn? ds)

end

end Datum

end UriTemplate

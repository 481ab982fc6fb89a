import UriTemplate.Uri.Percent

/-!
The operators of expressions. They differ in six parameters only: the characters that select them,
the text that leads an expansion, the delimiter between its units, how a unit joins a name and a
value, which characters of a value stand for themselves, and whether triplets of a value are kept.
-/

namespace UriTemplate

/-- The operators. The last one stands for the triggers that are set aside for extensions. -/
inductive Operator where
  | simple
  | reserved
  | fragment
  | label
  | pathSegment
  | pathParam
  | queryForm
  | queryContinuation
  | future
  deriving DecidableEq, Repr

/-- How a unit is written from a name and a value: the value alone, both, or both unless the value
is empty, when the name stands alone. -/
inductive Joining where
  | bare
  | paired
  | pairedUnlessEmpty
  deriving DecidableEq, Repr

/-- What an operator fixes. -/
structure Style where
  triggers : List Char
  leader : Text
  delimiter : Text
  joining : Joining
  allowed : CharClass
  keepsTriplets : Bool

namespace Operator

/-- The table of the operators. -/
def style : Operator → Style
  | simple => ⟨[], [], [','], .bare, .unreserved, false⟩
  | reserved => ⟨['+'], [], [','], .bare, .unreservedOrReserved, true⟩
  | fragment => ⟨['#'], ['#'], [','], .bare, .unreservedOrReserved, true⟩
  | label => ⟨['.'], ['.'], ['.'], .bare, .unreserved, false⟩
  | pathSegment => ⟨['/'], ['/'], ['/'], .bare, .unreserved, false⟩
  | pathParam => ⟨[';'], [';'], [';'], .pairedUnlessEmpty, .unreserved, false⟩
  | queryForm => ⟨['?'], ['?'], ['&'], .paired, .unreserved, false⟩
  | queryContinuation => ⟨['&'], ['&'], ['&'], .paired, .unreserved, false⟩
  | future => ⟨['=', ',', '!', '@', '|'], [], [], .bare, .unreservedOrReserved, false⟩

def all : List Operator :=
  [simple, reserved, fragment, label, pathSegment, pathParam, queryForm, queryContinuation, future]

/-- The operator that a character selects at the start of an expression. -/
def ofTrigger? (c : CodePoint) : Option Operator :=
  all.find? fun op => op.style.triggers.any fun t => c = t

/-- The operator that a text selects, which it does only if it is one trigger. -/
def ofTriggerText? : Text → Option Operator
  | [c] => ofTrigger? c
  | _ => none

/-- The word for an operator in descriptions. -/
def word : Operator → String
  | simple => "simple"
  | reserved => "reserved"
  | fragment => "fragment"
  | label => "label"
  | pathSegment => "path_segment"
  | pathParam => "path_param"
  | queryForm => "query_form"
  | queryContinuation => "query_form_continuation"
  | future => "future"

/-- The operator with a given word. -/
def ofWord? (w : Text) : Option Operator := all.find? fun op => lit op.word = w

/-- A name, an equals sign and a value. -/
def pair (name value : Text) : Text := name ++ .ofChar '=' :: value

/-- One unit of an expansion. An entry of an exploded map always shows its name. -/
def join (op : Operator) (entry : Bool) (name value : Text) : Text :=
  match op.style.joining with
  | .bare => if entry then pair name value else value
  | .paired => pair name value
  | .pairedUnlessEmpty => if !entry && value.isEmpty then name else pair name value

/-- A name as it stands in an expansion. -/
def encodeName (_ : Operator) (name : Text) : Text :=
  Percent.encode false CharClass.unreserved.admits name

/-- A value as it stands in an expansion. -/
def encodeValue (op : Operator) (value : Text) : Text :=
  Percent.encode op.style.keepsTriplets op.style.allowed.admits value

/-- The leader and then the units with delimiters between them; nothing at all without units. -/
def assemble (op : Operator) (units : List Text) : Text :=
  if units.isEmpty then [] else op.style.leader ++ op.style.delimiter.intercalate units

end Operator

end UriTemplate

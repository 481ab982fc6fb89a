import UriTemplate.Binding.Conversion
import UriTemplate.Uri.Query

/-!
Variables: keys bound to values, in the order in which the keys were bound. A name is the key that
is a text. Other data may be keys too: they are kept and counted, but no template asks for them.
Binding a key anew keeps its place; a key that was removed and is bound again goes to the end.
-/

namespace UriTemplate

/-- Bindings, each key once. -/
structure Variables where
  entries : List (Datum × Value)
  distinct : Keyed.Distinct entries

namespace Variables

def empty : Variables := ⟨[], Keyed.distinct_nil⟩

/-- Binds a key to a value. -/
def bind (vs : Variables) (k : Datum) (v : Value) : Variables :=
  ⟨Keyed.put k v vs.entries, Keyed.distinct_put vs.distinct⟩

/-- Leaves a key unbound. -/
def remove (vs : Variables) (k : Datum) : Variables :=
  ⟨Keyed.erase k vs.entries, Keyed.distinct_erase vs.distinct⟩

/-- Binds a key to what a datum makes; null leaves it unbound. -/
def set (vs : Variables) (k : Datum) (d : Datum) : Except Error Variables :=
  if d.isNull then .ok (vs.remove k) else (d.toValue false).map (vs.bind k)

/-- The entries of a mapping in turn, up to the first that cannot be bound: the bindings by then,
and the error if there is one. -/
def addAll (vs : Variables) : List (Datum × Datum) → Variables × Option Error
  | [] => (vs, none)
  | e :: es =>
    match vs.set e.1 e.2 with
    | .ok ws => ws.addAll es
    | .error err => (vs, some err)

/-- The bindings of a mapping. -/
def ofEntries (es : List (Datum × Datum)) : Except Error Variables :=
  match empty.addAll es with
  | (vs, none) => .ok vs
  | (_, some err) => .error err

/-- A single value as a scalar, any other number of them as a list. -/
def valueOf : List Text → Value
  | [t] => .scalar t
  | ts => .list ts

/-- Names with any number of values each. -/
def ofMultimap (m : List (Name × List Text)) : Variables :=
  m.foldl (fun vs e => vs.bind (.text e.1) (valueOf e.2)) empty

/-- The bindings of a query string: a scalar for a name that occurs once, otherwise a list. -/
def ofQuery (s : Text) : Variables := ofMultimap (Query.grouped (Query.pairs s))

/-! ### Asking -/

def get? (vs : Variables) (n : Name) : Option Value := vs.entries.lookup (.text n)

/-- The value of a name, undefined if it is not bound. -/
def get (vs : Variables) (n : Name) : Value := (vs.get? n).getD .undefined

/-- The text of a name that is bound to a scalar. -/
def single? (vs : Variables) (n : Name) : Option Text :=
  match vs.get? n with
  | some (.scalar t) => some t
  | _ => none

/-- The members of a list; a scalar is the only member of its own. -/
def listOf (vs : Variables) (n : Name) : List Text :=
  match vs.get? n with
  | some (.list ts) => ts
  | some (.scalar t) => [t]
  | _ => []

/-- The entries of a map, each key once. -/
def mapOf (vs : Variables) (n : Name) : List (Text × Text) :=
  match vs.get? n with
  | some (.map es) => Value.dictionary es
  | _ => []

/-- All keys, in order. -/
def keys (vs : Variables) : List Datum := vs.entries.map Prod.fst

def contains (vs : Variables) (n : Name) : Bool := (vs.get? n).isSome

def size (vs : Variables) : Nat := vs.entries.length

/-- The description of all bindings. -/
def described (vs : Variables) : Text :=
  lit "Variables(" ++
    Value.bracketed "\x7b" "\x7d"
      (vs.entries.map fun e => e.1.written ++ lit ": " ++ e.2.described) ++
    lit ")"

end Variables

end UriTemplate

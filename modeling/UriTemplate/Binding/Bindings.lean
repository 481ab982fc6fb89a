import UriTemplate.Expansion
import UriTemplate.Binding.Variables

/-!
What a template can be expanded with: a datum, which has to be a mapping or null, variables, or a
function of the name.
-/

namespace UriTemplate

/-- Bindings, or what a caller takes for them. -/
inductive Bindings where
  | datum (d : Datum)
  | named (vs : Variables)
  | function (f : Name → Datum)

namespace Bindings

/-- The datum that a mapping has for a name: null if it has none. -/
def entryOf (es : List (Datum × Datum)) (n : Name) : Datum := (es.lookup (.text n)).getD .null

/-- Looking up a datum: what is a stream is read when its name is asked for first. -/
def lookupData (f : Name → Datum) : Expansion.Lookup :=
  fun asked n => (f n).toValue (asked.contains n)

/-- The name of the type of what was given. -/
def typeName : Bindings → Text
  | datum d => d.typeName
  | named _ => lit "Variables"
  | function _ => lit "function"

/-- The lookup that bindings give, if they are bindings. -/
def lookup : Bindings → Except Error Expansion.Lookup
  | datum .null => .ok fun _ _ => .ok .undefined
  | datum (.map es) => .ok (lookupData (entryOf es))
  | named vs => .ok fun _ n => .ok (vs.get n)
  | function f => .ok (lookupData f)
  | b => .error (.notBindings b.typeName)

/-- The bindings count as nothing where others take their place. -/
def isVoid : Bindings → Bool
  | datum d => d.isVoid
  | named vs => vs.size == 0
  | function _ => false

end Bindings

end UriTemplate

import UriTemplate.Data.Keyed
import UriTemplate.Text.Quoted

/-!
The values that expansion knows: an undefined one, a text, a list of texts and a list of pairs of
texts.
-/

namespace UriTemplate

/-- What a variable is bound to when a template is expanded. An empty text is a defined value. -/
inductive Value where
  | undefined
  | scalar (text : Text)
  | list (items : List Text)
  | map (entries : List (Text × Text))
  deriving DecidableEq, Repr

namespace Value

/-- The value adds nothing to an expansion. -/
def isEmpty : Value → Bool
  | undefined => true
  | scalar _ => false
  | list items => items.isEmpty
  | map entries => entries.isEmpty

/-- The entries of a map with each key once: at its first place, with its last value. -/
def dictionary : List (Text × Text) → List (Text × Text) := Keyed.ofPairs

/-- Members in brackets, with commas between them. -/
def bracketed (left right : String) (ts : List Text) : Text :=
  lit left ++ (lit ", ").intercalate ts ++ lit right

/-- Members in parentheses, where a single one is followed by a comma. -/
def tupled (ts : List Text) : Text := bracketed "(" (if ts.length = 1 then ",)" else ")") ts

/-- The description of a value. -/
def described : Value → Text
  | undefined => lit "Absent()"
  | scalar t => lit "Scalar(value=" ++ t.quoted ++ lit ")"
  | list ts => lit "ListValue(items=" ++ tupled (ts.map Text.quoted) ++ lit ")"
  | map es =>
    lit "AssocMap(entries=" ++ tupled (es.map fun e => tupled [e.1.quoted, e.2.quoted]) ++ lit ")"

end Value

end UriTemplate

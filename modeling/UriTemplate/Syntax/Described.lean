import UriTemplate.Syntax.Term
import UriTemplate.Binding.Value

/-!
Descriptions of terms.
-/

namespace UriTemplate

/-- The description of a variable of an expression. -/
def Varspec.described (v : Varspec) : Text :=
  lit "Varspec(varname=" ++ v.name.quoted ++ lit ", decoded_name=" ++ v.decoded.quoted ++
    lit ", prefix_length=" ++
    (match v.modifier.cut? with
      | some n => Text.ofInt n
      | none => lit "None") ++
    lit ", exploded=" ++ (if v.modifier.explodes then lit "True" else lit "False") ++ lit ")"

/-- The description of an operator: its word, once in capitals. -/
def Operator.described (op : Operator) : Text :=
  lit "<OperatorId." ++ lit op.word.toUpper ++ lit ": " ++ (lit op.word).quoted ++ lit ">"

/-- The description of a term. -/
def Term.described : Term → Text
  | .literal t => lit "Literal(text=" ++ t.quoted ++ lit ")"
  | .expression op vs =>
    lit "Expression(operator=" ++ op.described ++ lit ", varspecs=" ++
      Value.tupled (vs.map Varspec.described) ++ lit ")"

end UriTemplate

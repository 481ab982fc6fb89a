import UriTemplate.Error

/-!
The names that the library publishes.
-/

namespace UriTemplate

/-- What a published name stands for: a type, a function or a constant with its description. -/
inductive Published where
  | type
  | function
  | constant (described : Text)
  deriving DecidableEq, Repr

namespace Published

def types : List String :=
  ["Absent", "AssocMap", "ExpandOptions", "ListValue", "MissingVariableError",
   "ModifierConflictError", "ParseError", "Scalar", "Template", "UriTemplateError", "Variables"]

def functions : List String := ["compile", "expand", "to_value"]

/-- Looks up a published name. -/
def find (n : Text) : Except Error Published :=
  if types.any fun t => lit t = n then .ok .type
  else if functions.any fun f => lit f = n then .ok .function
  else if n = lit "ABSENT" then .ok (.constant Value.undefined.described)
  else .error (.unknownName n)

end Published

end UriTemplate

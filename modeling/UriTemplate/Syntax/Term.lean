import UriTemplate.Syntax.Operator

/-!
What a template consists of: literal text, and expressions, which apply an operator to variables.
-/

namespace UriTemplate

/-- The name of a variable, as a template spells it. -/
abbrev Name := Text

/-- How many code points of a value a cut leaves: from one to 9999. -/
abbrev CutLength := { n : Nat // 1 ≤ n ∧ n ≤ 9999 }

/-- What a variable's modifier asks for: its value as a whole, the first code points of it, or one
unit for each member. -/
inductive Modifier where
  | whole
  | cut (length : CutLength)
  | explode
  deriving DecidableEq, Repr

/-- A variable inside an expression. The name is the token as written, and what bindings are asked
for; the decoded name has its triplets read, and is what an expansion shows. -/
structure Varspec where
  name : Name
  decoded : Text
  modifier : Modifier
  deriving DecidableEq, Repr

inductive Term where
  | literal (text : Text)
  | expression (op : Operator) (vars : List Varspec)
  deriving DecidableEq, Repr

namespace Modifier

/-- The length of the cut, if the modifier is one. -/
def cut? : Modifier → Option Nat
  | cut n => some n.val
  | _ => none

def explodes : Modifier → Bool
  | explode => true
  | _ => false

/-- Why two requests make no modifier. -/
inductive Conflict where
  | lengthOutOfRange (n : Int)
  | cutAndExplode
  deriving DecidableEq, Repr

/-- The modifier that asks for a cut of some length, for explosion, or for neither. -/
def make (length : Option Int) (explodes : Bool) : Except Conflict Modifier :=
  match length with
  | none => .ok (if explodes then explode else whole)
  | some n =>
    if h : 1 ≤ n.toNat ∧ n.toNat ≤ 9999 then
      if explodes then .error .cutAndExplode else .ok (cut ⟨n.toNat, h⟩)
    else .error (.lengthOutOfRange n)

end Modifier

namespace Term

/-- The names that a term looks up, in order. -/
def names : Term → List Name
  | literal _ => []
  | expression _ vars => vars.map Varspec.name

/-- The term is an expression whose operator is set aside for extensions. -/
def isFuture : Term → Bool
  | expression .future _ => true
  | _ => false

end Term

end UriTemplate

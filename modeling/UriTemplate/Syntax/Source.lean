import UriTemplate.Syntax.Production

/-!
Sources: which texts are templates, and what terms a template has. A text that is none is rejected
at a position, for one of two reasons.
-/

namespace UriTemplate

/-- Why a text is no template. -/
inductive Reason where
  | unexpectedCharacter
  | reservedOperator
  deriving DecidableEq, Repr

/-- The wording of a reason. -/
def Reason.text : Reason → Text
  | unexpectedCharacter => lit "unexpected character"
  | reservedOperator => lit "reserved operator"

/-- A reason and the position that it concerns. -/
structure Rejection where
  reason : Reason
  pos : Nat
  deriving DecidableEq, Repr

/-- The terms of a source. The text has to be read to its end, and only then do expressions count
whose operator is set aside: the first of them is rejected. -/
def termsOf (s : Text) : Except Rejection (List Term) :=
  let r := Production.terms (.start s)
  if r.2.rest.isEmpty then
    match r.1.find? fun p => p.2.isFuture with
    | some p => .error ⟨.reservedOperator, p.1⟩
    | none => .ok (r.1.map Prod.snd)
  else .error ⟨.unexpectedCharacter, r.2.pos⟩

end UriTemplate

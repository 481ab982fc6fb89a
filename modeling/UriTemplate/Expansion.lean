import UriTemplate.Error

/-!
Expansion. Literals are copied. An expression looks up its variables in order, each of them gives
any number of units, and the operator puts the units together; without units it gives nothing. The
first variable that cannot be looked up or written ends the expansion, and no text comes of it.

A lookup may depend on the names that were asked for before, so that a sequence which can be read
once is a function too. An expansion keeps account of the names it asked for.
-/

namespace UriTemplate

/-- Whether a variable without a binding is left out or is an error. -/
structure Options where
  allowsUndefined : Bool := true
  deriving DecidableEq, Repr

namespace Options

/-- The options with the other answer. -/
def negated (o : Options) : Options := ⟨!o.allowsUndefined⟩

/-- The description of options. -/
def described (o : Options) : Text :=
  lit "ExpandOptions(allow_variable_miss=" ++
    (if o.allowsUndefined then lit "True" else lit "False") ++ lit ")"

end Options

namespace Varspec

/-- A unit for a name and a value, both encoded. -/
def unit (op : Operator) (name value : Text) : Text :=
  op.join false (op.encodeName name) (op.encodeValue value)

/-- A unit for an entry of a map, which always shows its key. -/
def entryUnit (op : Operator) (e : Text × Text) : Text :=
  op.join true (op.encodeName e.1) (op.encodeValue e.2)

/-- The encoded values with commas between them. -/
def commaJoined (op : Operator) (ts : List Text) : Text :=
  [.ofChar ','].intercalate (ts.map op.encodeValue)

/-- The units that a variable gives for its value. A map that is not exploded goes by the name as
written, all else by the decoded one. -/
def units (op : Operator) (v : Varspec) : Value → Except Error (List Text)
  | .undefined => .ok []
  | .scalar t =>
    match v.modifier with
    | .cut n => .ok [unit op v.decoded (t.take n.val)]
    | _ => .ok [unit op v.decoded t]
  | .list ts =>
    match v.modifier with
    | .cut _ => .error (.modifierConflict v.name (lit "list"))
    | .explode => .ok (ts.map (unit op v.decoded))
    | .whole =>
      .ok (if ts.isEmpty then []
        else [op.join false (op.encodeName v.decoded) (commaJoined op ts)])
  | .map es =>
    match v.modifier with
    | .cut _ => .error (.modifierConflict v.name (lit "map"))
    | .explode => .ok (es.map (entryUnit op))
    | .whole =>
      .ok (if es.isEmpty then []
        else [op.join false (op.encodeName v.name)
          (commaJoined op (es.flatMap fun e => [e.1, e.2]))])

end Varspec

namespace Expansion

/-- The value of a name, given the names asked for before, the latest first. -/
abbrev Lookup := List Name → Name → Except Error Value

/-- A computation that asks for names, and may fail. Its state is the names asked for so far, the
latest first. -/
abbrev Asking := ExceptT Error (StateM (List Name))

/-- Asks for a name. -/
def ask (lookup : Lookup) (n : Name) : Asking Value := do
  let asked ← get
  set (n :: asked)
  MonadExcept.ofExcept (lookup asked n)

/-- The units of a variable. -/
def variableUnits (lookup : Lookup) (o : Options) (op : Operator) (v : Varspec) :
    Asking (List Text) := do
  let x ← ask lookup v.name
  if x = .undefined ∧ o.allowsUndefined = false then
    throw (.missingVariable v.name)
  else
    MonadExcept.ofExcept (v.units op x)

/-- The text of an expression. -/
def expression (lookup : Lookup) (o : Options) (op : Operator) (vars : List Varspec) :
    Asking Text := do
  let units ← vars.mapM (variableUnits lookup o op)
  pure (op.assemble units.flatten)

/-- The text of a term. -/
def term (lookup : Lookup) (o : Options) : Term → Asking Text
  | .literal t => pure t
  | .expression op vars => expression lookup o op vars

/-- The text of some terms. -/
def terms (lookup : Lookup) (o : Options) (ts : List Term) : Asking Text := do
  let texts ← ts.mapM (term lookup o)
  pure texts.flatten

/-- How an expansion ends, and the names it asked for, in order. -/
structure Outcome where
  result : Except Error Text
  asked : List Name

/-- Expands from the start, when nothing has been asked for. -/
def run (x : Asking Text) : Outcome :=
  let r := Id.run (StateT.run (ExceptT.run x) [])
  ⟨r.1, r.2.reverse⟩

end Expansion

end UriTemplate

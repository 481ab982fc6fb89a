import UriTemplate.Data.Datum
import UriTemplate.Syntax.Term

/-!
What can go wrong, by its cause. Each error has a message, belongs to a kind, and falls under the
broader families by which callers tell errors apart.
-/

namespace UriTemplate

/-- Why a request cannot be met. -/
inductive Error where
  /-- A text is no template. -/
  | parse (source : Text) (pos : Int) (reason : Text)
  /-- A cut was asked of a list or a map. -/
  | modifierConflict (name : Name) (kind : Text)
  /-- A variable has no binding where each needs one. -/
  | missingVariable (name : Name)
  /-- A cause that a caller words. -/
  | general (args : List Datum)
  /-- The engine for page templates is not there. -/
  | engineMissing (args : List Datum)
  /-- Octets are no value before they are decoded. -/
  | octetsUnbindable (changeable : Bool) (content : List UInt8)
  /-- A datum of a type that makes no value. -/
  | unbindable (typeName : Text)
  /-- What a template was to be expanded with gives no bindings. -/
  | notBindings (typeName : Text)
  /-- What was to be merged with other bindings is no mapping. -/
  | notMapping (typeName : Text)
  /-- A member of a set or a key has a type that sets do not take. -/
  | unhashable (typeName : Text)
  /-- A modifier was asked for that does not exist. -/
  | modifier (conflict : Modifier.Conflict)
  /-- No operator has the word. -/
  | unknownOperator (word : Text)
  /-- The library publishes nothing by the name. -/
  | unknownName (name : Text)
  /-- A template was to be changed. -/
  | immutable
  /-- No template is kept in a slot. -/
  | emptySlot (slot : Text)
  /-- A number outside the code space was asked about as a character. -/
  | notACodePoint

namespace Error

/-- The kinds of errors. -/
inductive Kind where
  | template
  | parse
  | modifierConflict
  | missingVariable
  | engineMissing
  | wrongType
  | badValue
  | noAttribute
  | noKey
  deriving DecidableEq, Repr

/-- The broader families, from this library's own errors to all errors. -/
inductive Family where
  | template
  | value
  | key
  | lookup
  | any
  deriving DecidableEq, Repr

/-- The families that a kind falls under. -/
def Kind.families : Kind → List Family
  | template => [.template, .any]
  | parse => [.template, .value, .any]
  | modifierConflict => [.template, .value, .any]
  | missingVariable => [.template, .key, .lookup, .any]
  | engineMissing => [.template, .any]
  | wrongType => [.any]
  | badValue => [.value, .any]
  | noAttribute => [.any]
  | noKey => [.key, .lookup, .any]

def kind : Error → Kind
  | parse .. => .parse
  | modifierConflict .. => .modifierConflict
  | missingVariable _ => .missingVariable
  | general _ => .template
  | engineMissing _ => .engineMissing
  | octetsUnbindable .. | unbindable _ | notBindings _ | notMapping _ | unhashable _ => .wrongType
  | modifier _ | unknownOperator _ | notACodePoint => .badValue
  | unknownName _ | immutable => .noAttribute
  | emptySlot _ => .noKey

/-- Arguments as a message: nothing, the only one's text, or the description of them all. -/
def ofArguments : List Datum → Text
  | [] => []
  | [d] => d.plain
  | ds => (Datum.tuple ds).written

def message : Error → Text
  | parse source pos reason =>
    reason ++ lit " at position " ++ Text.ofInt pos ++ lit " in " ++ source.quoted
  | modifierConflict name kind =>
    lit "Prefix modifier cannot be applied to " ++ kind ++ lit " variable " ++ name.quoted
  | missingVariable name => lit "No value bound for template variable " ++ name.quoted
  | general args => ofArguments args
  | engineMissing args => ofArguments args
  | octetsUnbindable changeable content =>
    lit "Cannot bind bytes as a template variable; decode it first: " ++
      Text.quotedOctets changeable content
  | unbindable t => lit "Cannot bind " ++ t ++ lit " as a template variable"
  | notBindings t => lit "Cannot expand with " ++ t ++ lit "; expected a mapping or a callable"
  | notMapping t => lit "'" ++ t ++ lit "' object is not a mapping"
  | unhashable t => lit "unhashable type: '" ++ t ++ lit "'"
  | modifier (.lengthOutOfRange n) =>
    lit "prefix length must be in [1, 9999], got " ++ Text.ofInt n
  | modifier .cutAndExplode => lit "a varspec cannot carry both a prefix and an explode modifier"
  | unknownOperator w => w.quoted ++ lit " is not a valid OperatorId"
  | unknownName n => lit "module 'uritpl' has no attribute " ++ n.quoted
  | immutable => lit "Template is immutable"
  | emptySlot s => s.quoted
  | notACodePoint => lit "chr() arg not in range(0x110000)"

/-- What an error carries besides its kind: what a caller gave it, or else its message. -/
def arguments : Error → List Datum
  | missingVariable name => [.text name]
  | general args => args
  | engineMissing args => args
  | e => [.text e.message]

end Error

end UriTemplate

import UriTemplate.Error

/-!
Making mappings and values of data. A mapping has each key once, and a key has to be of a type that
sets take. Texts, truth values and numbers become scalars, mappings become maps and other sequences
become lists. Members that are null are undefined and left out, so that a sequence or a mapping of
null alone becomes an empty one.
-/

namespace UriTemplate.Datum

/-- The entries of a mapping with one more put. A key that has a value keeps its place; a key that
can change is refused. -/
def putEntry (es : List (Datum × Datum)) (e : Datum × Datum) :
    Except Error (List (Datum × Datum)) :=
  match e.1.unhashable? with
  | some t => .error (.unhashable t)
  | none => .ok (Keyed.put e.1 e.2 es)

/-- The entries of a mapping as texts, without those whose value is null. -/
def entryTexts (es : List (Datum × Datum)) : List (Text × Text) :=
  (es.filter fun e => !e.2.isNull).map fun e => (e.1.spelled, e.2.spelled)

/-- The members of a sequence as texts, without null. -/
def itemTexts (ds : List Datum) : List Text := (ds.filter fun d => !d.isNull).map spelled

/-- The value that a datum makes. A stream that was read before has no members left. -/
def toValue (d : Datum) (readBefore : Bool) : Except Error Value :=
  match d with
  | null => .ok .undefined
  | value v => .ok v
  | bool _ | int _ | float _ | text _ => .ok (.scalar d.spelled)
  | map es => .ok (.map (entryTexts es))
  | list ds | tuple ds => .ok (.list (itemTexts ds))
  | stream ds => .ok (.list (if readBefore then [] else itemTexts ds))
  | octets c bs => .error (.octetsUnbindable c bs)
  | object t => .error (.unbindable t)

end UriTemplate.Datum

import UriTemplate.Template

/-!
Sessions: variables that change step by step, and templates kept in slots. A step that fails leaves
the templates as they are, and the variables too unless it bound some of them before it failed. A
step that nothing can be made of fails as well, and so does one that asks for an empty slot.
-/

namespace UriTemplate

/-- The bound variables and the templates at hand. -/
structure Session where
  bound : Variables
  slots : List (Text × Template)

namespace Session

/-- The name of a slot. -/
abbrev Slot := Text

/-- What two things are compared with: a slot, or a datum, which is no template. -/
inductive Operand where
  | slot (s : Slot)
  | datum (d : Datum)

/-- One step. -/
inductive Command where
  | renew (values : List (Datum × Datum))
  | fromQuery (query : Text)
  | fromMultimap (pairs : List (Name × List Text))
  | set (name : Name) (value : Datum)
  | addAll (values : List (Datum × Datum))
  | remove (name : Name)
  | get (name : Name)
  | single (name : Name)
  | list (name : Name)
  | map (name : Name)
  | contains (name : Name)
  | keys
  | size
  | describe
  | compile (slot : Slot) (source : Text)
  | expand (slot : Slot) (options : Options)
  | expandMapping (slot : Slot) (values : List (Datum × Datum)) (options : Options)
  | copy (slot target : Slot)
  | equal (slot : Slot) (other : Operand)
  | assign (slot : Slot)

/-- What a step answers. -/
inductive Answer where
  | done
  | itself
  | value (v : Value)
  | text (t : Text)
  | text? (t : Option Text)
  | texts (ts : List Text)
  | data (ds : List Datum)
  | entries (es : List (Text × Text))
  | flag (b : Bool)
  | count (n : Nat)
  | template (t : Template)
  | comparison (equal : Bool) (distinct : Nat)

def start : Session := ⟨.empty, []⟩

/-- The answer of a step, or its error, and the session after it. -/
abbrev Result := Except Error Answer × Session

/-- Replaces the variables, if there are new ones. -/
def replace (s : Session) : Except Error Variables → Result
  | .ok vs => (.ok .done, { s with bound := vs })
  | .error e => (.error e, s)

/-- Puts a template into a slot. -/
def keep (s : Session) (slot : Slot) (t : Template) : Result :=
  (.ok (.template t), { s with slots := Keyed.put slot t s.slots })

/-- The template in a slot. -/
def template (s : Session) (slot : Slot) : Except Error Template :=
  match s.slots.lookup slot with
  | some t => .ok t
  | none => .error (.emptySlot slot)

/-- Answers for the template in a slot. -/
def withSlot (s : Session) (slot : Slot) (f : Template → Except Error Answer) : Result :=
  ((s.template slot).bind f, s)

/-- Whether a template equals what it is compared with, and how many members a set of the two
has. -/
def compare (s : Session) (t : Template) : Operand → Except Error Answer
  | .slot o =>
    (s.template o).map fun u => if t = u then .comparison true 1 else .comparison false 2
  | .datum d =>
    match d.unhashable? with
    | some n => .error (.unhashable n)
    | none => .ok (.comparison false 2)

/-- Takes one step. -/
def step (s : Session) : Command → Result
  | .renew values => s.replace (Variables.ofEntries values)
  | .fromQuery q => s.replace (.ok (Variables.ofQuery q))
  | .fromMultimap m => s.replace (.ok (Variables.ofMultimap m))
  | .set n d =>
    match s.bound.set (.text n) d with
    | .ok vs => (.ok .itself, { s with bound := vs })
    | .error e => (.error e, s)
  | .addAll es =>
    match s.bound.addAll es with
    | (vs, none) => (.ok .itself, { s with bound := vs })
    | (vs, some e) => (.error e, { s with bound := vs })
  | .remove n => (.ok .itself, { s with bound := s.bound.remove (.text n) })
  | .get n => (.ok (.value (s.bound.get n)), s)
  | .single n => (.ok (.text? (s.bound.single? n)), s)
  | .list n => (.ok (.texts (s.bound.listOf n)), s)
  | .map n => (.ok (.entries (s.bound.mapOf n)), s)
  | .contains n => (.ok (.flag (s.bound.contains n)), s)
  | .keys => (.ok (.data s.bound.keys), s)
  | .size => (.ok (.count s.bound.size), s)
  | .describe => (.ok (.text s.bound.described), s)
  | .compile slot source =>
    match Template.compile source with
    | .ok t => s.keep slot t
    | .error e => (.error e, s)
  | .expand slot o =>
    s.withSlot slot fun t => (t.expand (.named s.bound) o).result.map .text
  | .expandMapping slot es o =>
    s.withSlot slot fun t => (t.expand (.datum (.map es)) o).result.map .text
  | .copy slot target =>
    match s.template slot with
    | .ok t => s.keep target t
    | .error e => (.error e, s)
  | .equal slot o => s.withSlot slot fun t => s.compare t o
  | .assign slot => s.withSlot slot fun _ => .error .immutable

/-- Takes a step if something can be made of it. -/
def attempt (s : Session) : Except Error Command → Result
  | .ok c => s.step c
  | .error e => (.error e, s)

/-- Attempts steps in turn: the result of each, with the session after it. -/
def run (s : Session) : List (Except Error Command) → List Result
  | [] => []
  | c :: cs =>
    let r := s.attempt c
    r :: r.2.run cs

end Session

end UriTemplate

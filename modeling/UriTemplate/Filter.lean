import UriTemplate.Template

/-!
Templates inside page templates: a filter that expands a template with a mapping and keywords, its
form for expressions, which takes keywords alone, and the names under which an engine is told of
them.
-/

namespace UriTemplate.Filter

/-- A template that may still have to be compiled. -/
inductive Source where
  | text (s : Text)
  | template (t : Template)

def Source.compile : Source → Except Error Template
  | text s => Template.compile s
  | template t => .ok t

/-- The entries of a mapping with keywords put over them. -/
def merged (es : List (Datum × Datum)) (keywords : List (Name × Datum)) : List (Datum × Datum) :=
  keywords.foldl (fun m k => Keyed.put (.text k.1) k.2 m) es

/-- The bindings that a mapping and keywords make together. What counts as nothing is passed
over, and whatever else is no mapping cannot be merged. -/
def bindings (b : Bindings) (keywords : List (Name × Datum)) : Except Error Bindings :=
  if b.isVoid then .ok (.datum (.map (merged [] keywords)))
  else
    match b with
    | .datum (.map es) => .ok (.datum (.map (merged es keywords)))
    | _ => .error (.notMapping b.typeName)

/-- Expands a template with a mapping and keywords. The template is compiled first. -/
def expand (src : Source) (b : Bindings) (keywords : List (Name × Datum)) :
    Except Error Text := do
  let t ← src.compile
  let merged ← bindings b keywords
  (t.expand merged {}).result

/-- Expands a template with keywords alone. -/
def expandGlobal (src : Source) (keywords : List (Name × Datum)) : Except Error Text :=
  expand src (.datum .null) keywords

/-! ### Registration -/

/-- The name of the filter. -/
def filterName : Text := lit "uri_template"

/-- The name of the form for expressions. -/
def globalName : Text := lit "expand_uri"

/-- What an engine is told. -/
inductive Notice where
  | created (options : List Text)
  | filters (names : List Text)
  | global (name : Text)
  deriving DecidableEq, Repr

/-- Tells an engine of the filter and of its form for expressions. -/
def registration : List Notice := [.filters [filterName], .global globalName]

/-- An order of texts by their code points. -/
def before : Text → Text → Bool
  | [], _ => true
  | _ :: _, [] => false
  | a :: s, b :: t => if a = b then before s t else a.val < b.val

/-- All that an engine created with some options is told, each option once and in order. -/
def told (options : List Text) : List Notice :=
  .created (options.eraseDups.mergeSort before) :: registration

/-- Creates an engine with options and tells it, if there is an engine. -/
def creation (engineThere : Bool) (options : List Text) : Except Error (List Notice) :=
  if engineThere then .ok (told options)
  else
    .error (.engineMissing
      [.text (lit "uritpl.ext.templating requires 'kida' for template integration. " ++
        lit "Install with: pip install uritpl[kida]")])

end UriTemplate.Filter

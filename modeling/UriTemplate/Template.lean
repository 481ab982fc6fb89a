import UriTemplate.Binding.Bindings
import UriTemplate.Syntax.Source

/-!
Compiled templates. A template is its source: the terms are what the source compiles to, and two
templates are equal if their sources are.
-/

namespace UriTemplate

/-- A source together with its terms. -/
structure Template where
  source : Text
  terms : List Term
  compiles : termsOf source = .ok terms

namespace Template

/-- Compiles a source. -/
def compile (s : Text) : Except Error Template :=
  match h : termsOf s with
  | .ok ts => .ok ⟨s, ts, h⟩
  | .error r => .error (.parse s r.pos r.reason.text)

theorem ext {a b : Template} (h : a.source = b.source) : a = b := by
  obtain ⟨s, ts, hs⟩ := a
  obtain ⟨s', ts', hs'⟩ := b
  subst h
  rw [hs] at hs'
  cases hs'
  rfl

instance : DecidableEq Template := fun a b =>
  if h : a.source = b.source then isTrue (ext h) else isFalse fun e => h (by rw [e])

/-- The names that the template looks up, in order of first use. -/
def variableNames (t : Template) : List Name := (t.terms.flatMap Term.names).eraseDups

/-- Expands the template with what a caller gives, which is looked at first. -/
def expand (t : Template) (b : Bindings) (o : Options) : Expansion.Outcome :=
  match b.lookup with
  | .ok lookup => Expansion.run (Expansion.terms lookup o t.terms)
  | .error e => ⟨.error e, []⟩

/-- The description of a template. -/
def described (t : Template) : Text := lit "Template(" ++ t.source.quoted ++ lit ")"

/-- Compiles a source and expands it once. -/
def expandSource (s : Text) (b : Bindings) (o : Options) : Expansion.Outcome :=
  match compile s with
  | .ok t => t.expand b o
  | .error e => ⟨.error e, []⟩

end Template

end UriTemplate

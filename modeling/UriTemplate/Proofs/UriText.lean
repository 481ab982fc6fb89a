import UriTemplate.Proofs.NormalForm
import UriTemplate.Proofs.Evaluation
import UriTemplate.Proofs.Units

/-!
What an expansion gives is the text of a URI: every character of it is unreserved or reserved, or is
the percent sign of a triplet. Such texts are kept as they are wherever triplets are kept, so they
come back from an expansion that shows them, and, as long as they have no apostrophe, they are
templates of a single literal.
-/

namespace UriTemplate

/-- A text that a URI may have. -/
def IsUriText (t : Text) : Prop := Percent.Spelled CharClass.unreservedOrReserved.admits t

lemma IsUriText.flatten {ts : List Text} (h : ∀ t ∈ ts, IsUriText t) : IsUriText ts.flatten := by
  induction ts with
  | nil => trivial
  | cons t ts ih =>
    have ht := h t (by simp)
    rw [List.flatten_cons]
    exact Percent.Spelled.append ht (ih fun u hu => h u (List.mem_cons_of_mem _ hu))

/-! ### Literals of a source -/

/-- The literals among some terms are texts of URIs. -/
def Term.UriLiterals (ts : List Term) : Prop := ∀ t, literal t ∈ ts → IsUriText t

lemma uriLiterals_of_termsOf {s : Text} {ts : List Term} (h : termsOf s = .ok ts) :
    Term.UriLiterals ts := by
  intro t ht
  obtain ⟨-, hs⟩ := (wellFormed_of_termsOf h).each _ ht
  exact hs.mono fun _ => CharClass.unreservedOrReserved_of_literal

/-! ### What expressions and terms give -/

lemma isUriText_assemble (op : Operator) {us : List Text} (h : ∀ u ∈ us, IsUriText u) :
    IsUriText (op.assemble us) := by
  have hleader : IsUriText op.style.leader := by
    cases op <;> first
      | trivial
      | exact Percent.spelled_singleton (by decide)
  have hdelimiter : IsUriText op.style.delimiter := by
    cases op <;> first
      | trivial
      | exact Percent.spelled_singleton (by decide)
  by_cases hne : us = []
  · rw [hne, op.assemble_nil]
    trivial
  · rw [op.assemble_of_ne_nil hne]
    exact Percent.Spelled.append hleader (Percent.Spelled.intercalate hdelimiter h)

lemma isUriText_unit {op : Operator} {v : Varspec} {x : Value} {us : List Text}
    (h : v.units op x = .ok us) {u : Text} (hu : u ∈ us) : IsUriText u :=
  Varspec.spelled_units h (fun _ => CharClass.unreservedOrReserved_of_unreserved)
    (fun _ => op.allowed_mono) (by decide) (fun _ => by decide) hu

namespace Expansion

variable {lookup : Lookup} {o : Options} {s s' : List Name} {t : Text}

/-- **An expression** gives the text of a URI, whatever its variables are bound to. -/
theorem isUriText_expression {op : Operator} {vars : List Varspec}
    (h : after (expression lookup o op vars) s = (.ok t, s')) : IsUriText t := by
  obtain ⟨ps, uss, -, -, hg, rfl, -⟩ := after_expression.mp h
  refine isUriText_assemble op fun u hu => ?_
  obtain ⟨p, -, us, hp, hu⟩ := exists_of_give hg hu
  exact isUriText_unit hp hu

/-- **Terms** give the text of a URI if their literals are such. -/
theorem isUriText_terms {ts : List Term} (hl : Term.UriLiterals ts)
    (h : after (terms lookup o ts) s = (.ok t, s')) : IsUriText t := by
  obtain ⟨texts, ht, rfl⟩ := after_terms.mp h
  refine .flatten fun u hu => ?_
  obtain ⟨x, hx, r, r', hu⟩ := exists_of_mem_mapM ht hu
  rcases x with w | ⟨op, vars⟩
  · rw [term, after_pure] at hu
    cases hu
    exact hl _ hx
  · exact isUriText_expression hu

/-- The operator for reserved characters shows the text of a URI as it is. -/
lemma run_reserved {n : Name} (ht : IsUriText t) (hx : lookup [] n = .ok (.scalar t)) :
    (run (terms lookup o [.expression .reserved [⟨n, n, .whole⟩]])).result = .ok t := by
  have hunit : Varspec.unit .reserved n t = t := Percent.encode_of_spelled ht
  have hgive : Give o .reserved [(⟨n, n, .whole⟩, .scalar t)] [[t]] := by
    refine .cons ?_ .nil
    change Except.ok [Varspec.unit .reserved n t] = _
    rw [hunit]
  have hanswers : Answers lookup [] [(⟨n, n, .whole⟩, .scalar t)] := ⟨hx, trivial⟩
  have hs := after_expression.mpr ⟨_, _, rfl, hanswers, hgive, rfl, rfl⟩
  have hassemble : Operator.reserved.assemble [[t]].flatten = t := by
    simp [Operator.assemble, Operator.style]
  rw [hassemble] at hs
  exact run_terms_singleton hs

end Expansion

/-! ### Texts of URIs as templates -/

namespace Grammar

/-- An apostrophe is reserved and no literal character. Without one, the text of a URI has the form
of a literal. -/
lemma spelled_of_isUriText {s : Text} (hs : IsUriText s) (ha : .ofChar '\'' ∉ s) :
    Percent.Spelled CharClass.literal.admits s := by
  induction s with
  | nil => trivial
  | cons c s ih =>
    rw [List.mem_cons, not_or] at ha
    refine ⟨hs.1.imp (fun hc => ?_) id, ih hs.2 ha.2⟩
    exact CharClass.literal_of_unreservedOrReserved hc (Ne.symm ha.1)

/-- An expression with a single variable, whose name is one character. -/
lemma source_of_variable {o : Text} {op : Operator} {c : CodePoint} (ho : Opener o op)
    (hc : CharClass.varchar.admits c = true) :
    Source (.ofChar '{' :: (o ++ [c, .ofChar '}'])) [.expression op [⟨[c], [c], .whole⟩]] :=
  source_of_name ho (.mk (.plain hc) .nil)

end Grammar

lemma termsOf_of_isUriText {s : Text} (h : IsUriText s) (ha : .ofChar '\'' ∉ s) :
    termsOf s = .ok (if s.isEmpty then [] else [.literal s]) := by
  obtain ⟨xs, hs, hf, hl⟩ := Grammar.verbatim_of_spelled s (Grammar.spelled_of_isUriText h ha)
  rw [termsOf_ok hs hf, hl]

namespace Template

/-- **Whatever a template expands to is the text of a URI**. Encoding leaves it alone where
triplets are kept, it comes back from an expansion that shows it so, and without apostrophes it is
a template of itself. -/
theorem expand_isUriText {t : Template} {b : Bindings} {o : Options} {r : Text}
    (h : (t.expand b o).result = .ok r) :
    IsUriText r ∧ Percent.encode true CharClass.unreservedOrReserved.admits r = r ∧
      (∀ b' o' lookup, b'.lookup = .ok lookup → lookup [] (lit "x") = .ok (.scalar r) →
        (expandSource (lit "\x7b+x\x7d") b' o').result = .ok r) ∧
      (.ofChar '\'' ∉ r → termsOf r = .ok (if r.isEmpty then [] else [.literal r]) ∧
        ∀ b' o' lookup, b'.lookup = .ok lookup → (expandSource r b' o').result = .ok r) := by
  have hr : IsUriText r := by
    unfold expand at h
    rcases hb : b.lookup with e | lookup
    · rw [hb] at h
      cases h
    · rw [hb] at h
      exact Expansion.isUriText_terms (uriLiterals_of_termsOf t.compiles) (Prod.ext h rfl)
  refine ⟨hr, Percent.encode_of_spelled hr, ?_, ?_⟩
  · intro b' o' lookup hb hx
    have hsource : termsOf (lit "\x7b+x\x7d") =
        .ok [.expression .reserved [⟨lit "x", lit "x", .whole⟩]] :=
      (termsOf_source (Grammar.source_of_variable .reserved (by decide)) _).mpr ⟨rfl, rfl⟩
    rw [expandSource_of_termsOf hsource hb]
    exact Expansion.run_reserved hr hx
  · intro ha
    have hterms := termsOf_of_isUriText hr ha
    refine ⟨hterms, fun b' o' lookup hb => ?_⟩
    rw [expandSource_of_termsOf hterms hb]
    rcases r with _ | ⟨c, r⟩
    · rfl
    · exact Expansion.run_terms_singleton (Expansion.after_pure _ [])

/-- A value with a percent sign, a triplet and a character outside ASCII in a fragment. -/
theorem fragment_isUriText : IsUriText (lit "#5%25%2f/%C3%A9") ∧
    termsOf (lit "#5%25%2f/%C3%A9") = .ok [.literal (lit "#5%25%2f/%C3%A9")] := by
  have hx : CharClass.varchar.admits 'x' = true := by decide
  have hterms := (termsOf_source (Grammar.source_of_variable .fragment hx) _).mpr ⟨rfl, rfl⟩
  have h := expand_isUriText (t := ⟨_, _, hterms⟩) (o := {}) (r := lit "#5%25%2f/%C3%A9")
    (b := .datum (.map [(.text (lit "x"), .text (lit "5%%2f/é"))])) rfl
  exact ⟨h.1, (h.2.2.2 (by decide)).1⟩

end Template

end UriTemplate

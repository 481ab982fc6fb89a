import UriTemplate.Proofs.Dependence
import UriTemplate.Proofs.Printing

/-!
Templates without bindings. Where no variable has a value an expression gives nothing, not even the
first character of its operator, and what is left of a template is its literals: the source without
all that stands in braces, in ASCII.
-/

namespace UriTemplate

/-! ### Sources without what stands in braces -/

namespace Text

/-- What of a text is outside braces, if its front is inside or outside. -/
def outside : Bool → Text → Text
  | _, [] => []
  | true, c :: s => outside (c ≠ '}') s
  | false, c :: s => if c = '{' then outside true s else c :: outside false s

/-- A text without its spans in braces, each of which goes from a left brace to the next right
one. -/
def withoutSpans (s : Text) : Text := outside false s

lemma withoutSpans_append {u : Text} (h : .ofChar '{' ∉ u) (s : Text) :
    withoutSpans (u ++ s) = u ++ withoutSpans s := by
  induction u with
  | nil => rfl
  | cons c u ih =>
    rw [List.mem_cons, not_or] at h
    rw [withoutSpans, List.cons_append, outside, if_neg (Ne.symm h.1)]
    exact congrArg (c :: ·) (ih h.2)

lemma withoutSpans_of_not_mem {s : Text} (h : .ofChar '{' ∉ s) : s.withoutSpans = s := by
  have hnil : withoutSpans [] = [] := rfl
  have hs := withoutSpans_append h []
  rwa [hnil, List.append_nil] at hs

lemma outside_append {u : Text} (h : .ofChar '}' ∉ u) (s : Text) :
    outside true (u ++ .ofChar '}' :: s) = withoutSpans s := by
  induction u with
  | nil => rfl
  | cons c u ih =>
    rw [List.mem_cons, not_or] at h
    rw [List.cons_append, outside, decide_eq_true (Ne.symm h.1)]
    exact ih h.2

end Text

namespace Grammar

/-- A character that a literal may have outside triplets is a literal character, or one outside
ASCII that is no surrogate. -/
def plain (c : CodePoint) : Bool := CharClass.literal.admits c || (!c.isAscii && !c.isSurrogate)

lemma spelled_literal {u t : Text} (h : Literal u t) : Percent.Spelled plain u := by
  cases h with
  | verbatim hc => exact Percent.spelled_singleton (by simp [plain, hc])
  | escaped hc =>
    exact Percent.spelled_singleton (by simp [plain, CharClass.plain_of_escaped hc])
  | triplet ha hb =>
    have hplain : ∀ c, CharClass.hexDigit.admits c = true → plain c = true := by
      intro c hc
      simp [plain, CharClass.literal_of_hexDigit hc]
    exact Percent.spelled_of_isTriplet hplain (Percent.isTriplet_iff.mpr ⟨rfl, ha, hb⟩)

lemma not_mem_leftBrace {s : Text} (h : Percent.Spelled plain s) : .ofChar '{' ∉ s :=
  h.not_mem (by decide) (by decide)

lemma withoutSpans_expression {u : Text} {op : Operator} {vs : List Varspec}
    (h : Expression u op vs) (s : Text) : (u ++ s).withoutSpans = s.withoutSpans := by
  obtain @⟨o, u, op, vs, ho, hu⟩ := h
  have hopen : .ofChar '}' ∉ o := by cases ho <;> decide
  have hlist : .ofChar '}' ∉ u := (spelled_variableList hu).not_mem (by decide) (by decide)
  have hinside : .ofChar '}' ∉ o ++ u := by simp [hopen, hlist]
  have hassoc : .ofChar '{' :: (o ++ (u ++ [.ofChar '}'])) ++ s =
      .ofChar '{' :: ((o ++ u) ++ .ofChar '}' :: s) := by simp
  rw [hassoc, Text.withoutSpans, Text.outside, if_pos rfl, Text.outside_append hinside]

end Grammar

namespace Term

/-- What a term gives of itself. -/
def ownText : Term → Text
  | literal t => t
  | expression _ _ => []

lemma ownText_before (x : Term) (ts : List Term) :
    (x.before ts).flatMap ownText = x.ownText ++ ts.flatMap ownText := by
  rcases x with t | ⟨op, vs⟩
  · rcases ts with _ | ⟨t' | ⟨op', vs'⟩, ts⟩
    · rfl
    · simp [before, ownText]
    · rfl
  · rfl

end Term

/-- **The literals of a source** are all of it that stands outside braces, in ASCII. -/
theorem Grammar.ownText_fused {s : Text} {xs : List Term} (h : Source s xs) :
    (Term.fused xs).flatMap Term.ownText = s.withoutSpans.asciiForm := by
  induction h with
  | nil => rfl
  | @cons u s x xs hx _ ih =>
    have hbefore : (Term.fused (x :: xs)).flatMap Term.ownText =
        x.ownText ++ (Term.fused xs).flatMap Term.ownText := Term.ownText_before x _
    rw [hbefore, ih]
    cases hx with
    | literal hu =>
      rw [Text.withoutSpans_append (not_mem_leftBrace (spelled_literal hu)),
        Text.asciiForm_append, ← printed_literal hu]
      rfl
    | expression hu =>
      rw [withoutSpans_expression hu]
      rfl

/-! ### Expressions that give nothing -/

namespace Expansion

variable {lookup : Lookup} {o : Options}

/-- If no expression gives anything, what is left is the literals. -/
lemma after_terms_silent {ts : List Term} (h : ∀ op vs, .expression op vs ∈ ts → ∀ s, ∃ s',
    after (expression lookup o op vs) s = (.ok [], s')) (s : List Name) :
    ∃ s', after (terms lookup o ts) s = (.ok (ts.flatMap Term.ownText), s') := by
  induction ts generalizing s with
  | nil => exact ⟨s, by rw [terms_nil, after_pure]; rfl⟩
  | cons x ts ih =>
    have hx : ∃ s', after (term lookup o x) s = (.ok x.ownText, s') := by
      rcases x with t | ⟨op, vs⟩
      · exact ⟨s, after_pure t s⟩
      · exact h op vs (by simp) s
    obtain ⟨s₁, hx⟩ := hx
    obtain ⟨s₂, hs⟩ := ih (fun op vs hm => h op vs (List.mem_cons_of_mem _ hm)) s₁
    refine ⟨s₂, ?_⟩
    rw [terms_cons, after_andThen, hx]
    simp only [hs, Except.map, List.flatMap_cons]

/-- An expression of undefined variables gives nothing. -/
lemma after_expression_undefined (ho : o.allowsUndefined = true) {vs : List Varspec}
    (h : ∀ asked, ∀ v ∈ vs, lookup asked v.name = .ok .undefined) (op : Operator)
    (s : List Name) : ∃ s', after (expression lookup o op vs) s = (.ok [], s') := by
  have hanswers : ∀ s, Answers lookup s (vs.map fun v => (v, .undefined)) := by
    clear s
    induction vs with
    | nil => exact fun _ => trivial
    | cons v vs ih =>
      intro s
      exact ⟨h s v (by simp), ih (fun asked w hw => h asked w (List.mem_cons_of_mem _ hw)) _⟩
  have hgive : Give o op (vs.map fun v => (v, .undefined)) (vs.map fun _ => []) := by
    refine List.forall₂_map_left_iff.mpr (List.forall₂_map_right_iff.mpr ?_)
    exact List.forall₂_same.mpr fun v _ => by rw [unitsFor_of_allows ho]; rfl
  refine ⟨_, after_expression.mpr ⟨_, _, ?_, hanswers s, hgive, ?_, rfl⟩⟩
  · simp [Function.comp_def]
  · simp [Operator.assemble]

end Expansion

/-! ### Templates without bindings -/

namespace Template

open Expansion

lemma result_of_after {t : Template} {b : Bindings} {lookup : Lookup} (hb : b.lookup = .ok lookup)
    {o : Options} {r : Text} (h : ∃ s, after (Expansion.terms lookup o t.terms) [] = (.ok r, s)) :
    (t.expand b o).result = .ok r := by
  obtain ⟨s, hs⟩ := h
  rw [expand_eq hb, run_eq, hs]

lemma ownText_terms (t : Template) :
    t.terms.flatMap Term.ownText = t.source.withoutSpans.asciiForm := by
  obtain ⟨xs, hs, -, hxs⟩ := exists_items t.compiles
  rw [← hxs, Grammar.ownText_fused hs]

lemma mem_variableNames {t : Template} {op : Operator} {vs : List Varspec}
    (hx : .expression op vs ∈ t.terms) {v : Varspec} (hv : v ∈ vs) : v.name ∈ t.variableNames :=
  List.mem_eraseDups.mpr (List.mem_flatMap.mpr ⟨_, hx, List.mem_map_of_mem hv⟩)

/-- If no name of a template has a value, nothing comes of its expressions. -/
theorem expand_undefined {t : Template} {b : Bindings} {lookup : Lookup}
    (hb : b.lookup = .ok lookup)
    (h : ∀ asked, ∀ n ∈ t.variableNames, lookup asked n = .ok .undefined) {o : Options}
    (ho : o.allowsUndefined = true) :
    (t.expand b o).result = .ok t.source.withoutSpans.asciiForm := by
  rw [← ownText_terms]
  refine result_of_after hb (after_terms_silent (fun op vs hx => ?_) [])
  exact after_expression_undefined ho (fun asked v hv => h asked _ (mem_variableNames hx hv)) op

/-- **Without bindings** a template expands to its source without all that stands in braces, in
which each character outside ASCII is written in triplets and all else is as it was. That nothing is
bound can be said by null, by an empty mapping, and by variables of which there are none. -/
theorem expand_unbound (t : Template) :
    (t.expand (.datum .null) {}).result = .ok t.source.withoutSpans.asciiForm ∧
      (t.expand (.datum (.map [])) {}).result = .ok t.source.withoutSpans.asciiForm ∧
      (t.expand (.named .empty) {}).result = .ok t.source.withoutSpans.asciiForm :=
  ⟨expand_undefined rfl (fun _ _ _ => rfl) rfl, expand_undefined rfl (fun _ _ _ => rfl) rfl,
    expand_undefined rfl (fun _ _ _ => rfl) rfl⟩

example : (lit "/a%2f\x7b?x,y*\x7dé").withoutSpans.asciiForm = lit "/a%2f%C3%A9" := by
  decide

end Template

end UriTemplate

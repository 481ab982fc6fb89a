import UriTemplate.Proofs.Compilation
import UriTemplate.Proofs.Names
import UriTemplate.Proofs.Spelling

/-!
The form of compiled terms. Literals are not empty, stand apart and hold nothing that would still
be escaped; no operator is set aside; names are written as the grammar has it, with what they are
when decoded beside them. A literal of this form is a source of itself.
-/

namespace UriTemplate

lemma CharClass.literal_of_hexDigit {c : CodePoint} (h : hexDigit.admits c = true) :
    literal.admits c = true :=
  literal_of_unreserved (unreserved_of_hexDigit h)

namespace Term

def isLiteral : Term → Bool
  | literal _ => true
  | expression _ _ => false

/-- A term that compiling may give: a literal of literal characters and triplets, which is not
empty, or an expression whose operator is not set aside. That a modifier does not cut and explode at
once, nor cut at a length out of range, is a matter of its type. -/
def IsNormal : Term → Prop
  | literal t => t ≠ [] ∧ Percent.Spelled CharClass.literal.admits t
  | expression op vs => op ≠ .future ∧ ∀ v ∈ vs, Grammar.Named v.name v.decoded

/-- Terms that compiling may give. No two literals meet. -/
structure WellFormed (ts : List Term) : Prop where
  apart : ts.IsChain fun x y => ¬(x.isLiteral = true ∧ y.isLiteral = true)
  each : ∀ x ∈ ts, x.IsNormal

namespace WellFormed

lemma nil : WellFormed [] := ⟨.nil, by simp⟩

lemma cons_iff {x : Term} {ts : List Term} : WellFormed (x :: ts) ↔
    x.IsNormal ∧ WellFormed ts ∧ (x.isLiteral = true → ∀ y ∈ ts.head?, y.isLiteral = false) := by
  constructor
  · rintro ⟨ha, he⟩
    rw [List.isChain_cons] at ha
    refine ⟨he x (by simp), ⟨ha.2, fun y hy => he y (List.mem_cons_of_mem _ hy)⟩, ?_⟩
    intro hx y hy
    simpa [hx] using ha.1 y hy
  · rintro ⟨hx, ⟨ha, he⟩, hh⟩
    refine ⟨List.isChain_cons.mpr ⟨fun y hy h => ?_, ha⟩, by simpa [hx] using he⟩
    simp [hh h.1 y hy] at h

/-- A term before others, with which a literal is made one. -/
theorem before {x : Term} {ts : List Term} (hx : x.IsNormal) (h : WellFormed ts) :
    WellFormed (x.before ts) := by
  rcases x with t | ⟨op, vs⟩
  · rcases ts with _ | ⟨t' | ⟨op, vs⟩, ts⟩
    · exact cons_iff.mpr ⟨hx, nil, by simp⟩
    · -- the longer literal has the neighbours of the one that was there
      obtain ⟨hx', h, hh⟩ := cons_iff.mp h
      refine cons_iff.mpr ⟨⟨by simp [hx.1], hx.2.append hx'.2⟩, h, fun _ => hh rfl⟩
    · exact cons_iff.mpr ⟨hx, h, by simp [isLiteral]⟩
  · exact cons_iff.mpr ⟨hx, h, by simp [isLiteral]⟩

end WellFormed

end Term

namespace Grammar

lemma isNormal_of_item {u : Text} {x : Term} (h : Item u x) (hf : x.isFuture = false) :
    x.IsNormal := by
  have hex := fun c => @CharClass.literal_of_hexDigit c
  cases h with
  | literal h =>
    cases h with
    | verbatim hc => exact ⟨by simp, Percent.spelled_singleton hc⟩
    | @escaped c => exact ⟨Percent.escape_ne_nil c, Percent.spelled_escape hex c⟩
    | triplet ha hb =>
      exact ⟨by simp, Percent.spelled_of_isTriplet hex (Percent.isTriplet_iff.mpr ⟨rfl, ha, hb⟩)⟩
  | @expression op vs h =>
    have hop := Term.isFuture_expression.mp hf
    obtain ⟨-, hn⟩ := (expression_iff hop).mp h
    exact ⟨hop, fun v hv => named_iff.mpr (hn v hv)⟩

lemma wellFormed_fused {s : Text} {xs : List Term} (h : Source s xs)
    (hf : ∀ x ∈ xs, x.isFuture = false) : Term.WellFormed (Term.fused xs) := by
  induction h with
  | nil => exact .nil
  | cons hx _ ih =>
    have hs := ih fun y hy => hf y (List.mem_cons_of_mem _ hy)
    exact .before (isNormal_of_item hx (hf _ (by simp))) hs

end Grammar

/-- **Compiled terms** are well-formed. -/
theorem wellFormed_of_termsOf {s : Text} {ts : List Term} (h : termsOf s = .ok ts) :
    Term.WellFormed ts := by
  obtain ⟨xs, hs, hf, rfl⟩ := exists_items h
  exact Grammar.wellFormed_fused hs hf

/-! ### Literals as sources -/

namespace Grammar

/-- A text is a source of literals, which give the text itself. -/
def Verbatim (s : Text) : Prop :=
  ∃ xs, Source s xs ∧ (∀ x ∈ xs, x.isFuture = false) ∧
    Term.fused xs = if s.isEmpty then [] else [.literal s]

lemma Verbatim.append {u s : Text} (hu : Literal u u) (h : Verbatim s) : Verbatim (u ++ s) := by
  obtain ⟨xs, hs, hf, hl⟩ := h
  have hu' : u ≠ [] := Production.item_ne_nil (.literal hu)
  have hne : (u ++ s).isEmpty = false := by simp [hu']
  refine ⟨.literal u :: xs, .cons (.literal hu) hs, by simpa [Term.isFuture] using hf, ?_⟩
  change Term.before (.literal u) (Term.fused xs) = _
  rw [hl, hne]
  rcases s with _ | ⟨c, s⟩
  · simp [Term.before]
  · rfl

/-- **A text of literal characters and triplets** is a source of itself. -/
theorem verbatim_of_spelled (s : Text) (hs : Percent.Spelled CharClass.literal.admits s) :
    Verbatim s := by
  match s with
  | [] => exact ⟨[], .nil, by simp, rfl⟩
  | c :: s =>
    rcases hs.1 with hc | ⟨rfl, a, b, r, rfl, ha, hb⟩
    · exact (verbatim_of_spelled s hs.2).append (.verbatim hc)
    · exact (verbatim_of_spelled r hs.2.2.2).append (.triplet ha hb)
termination_by s.length

end Grammar

end UriTemplate

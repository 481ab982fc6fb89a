import UriTemplate.Proofs.Rejection
import UriTemplate.Proofs.Evaluation

/-!
Texts one after the other. Nothing that is read of a text that compiles depends on what follows it:
the terms, the positions of errors and the names that are asked for of two texts in a row are those
of the first and then those of the second. Only the literals that meet in the middle become one.
-/

namespace UriTemplate

namespace Term

/-- The terms of two texts, one text after the other. Literals that meet are one. -/
def joined : List Term → List Term → List Term
  | [], ys => ys
  | [x], ys => x.before ys
  | x :: y :: xs, ys => x :: joined (y :: xs) ys

lemma before_joined (x : Term) (xs ys : List Term) :
    x.before (joined xs ys) = joined (x.before xs) ys := by
  match xs with
  | [] => cases x <;> rfl
  | .expression op vs :: xs => cases x <;> cases xs <;> rfl
  | .literal t :: y :: xs => cases x <;> rfl
  | [.literal t] =>
    rcases x with t' | ⟨op, vs⟩
    · rcases ys with _ | ⟨u | ⟨op, vs⟩, ys⟩ <;> simp [joined, before]
    · rfl

/-- Making runs of literals one can be done before or after. -/
theorem fused_append (xs ys : List Term) : fused (xs ++ ys) = joined (fused xs) (fused ys) := by
  induction xs with
  | nil => rfl
  | cons x xs ih =>
    calc fused (x :: xs ++ ys) = x.before (fused (xs ++ ys)) := rfl
      _ = x.before (joined (fused xs) (fused ys)) := by rw [ih]
      _ = joined (x.before (fused xs)) (fused ys) := before_joined x _ _

end Term

namespace Grammar

/-- What is rejected stays so, further on, when a text that compiles is put before it. -/
lemma ReservedAt.append {a s : Text} {xs : List Term} {i : Nat} (ha : Source a xs)
    (hx : ∀ x ∈ xs, x.isFuture = false) (h : ReservedAt s i) :
    ReservedAt (a ++ s) (a.length + i) := by
  obtain @⟨u, v, t, ys, zs, vs, hu, hy, hv, ht⟩ := h
  rw [← List.append_assoc, ← List.length_append]
  refine .mk (source_append ha hu) (fun x hm => ?_) hv ht
  rcases List.mem_append.mp hm with hm | hm
  · exact hx x hm
  · exact hy x hm

end Grammar

namespace Expansion

variable {α : Type} {lookup : Lookup} {o : Options}

/-! ### Two expansions in a row -/

/-- The two texts, one after the other. -/
def andThen (x y : Asking Text) : Asking Text := do
  let t ← x
  let u ← y
  pure (t ++ u)

lemma andThen_assoc (x y z : Asking Text) :
    andThen (andThen x y) z = andThen x (andThen y z) := by
  simp only [andThen, bind_assoc, pure_bind, List.append_assoc]

lemma terms_nil : terms lookup o [] = pure [] := by
  simp [terms]

lemma terms_cons (x : Term) (xs : List Term) :
    terms lookup o (x :: xs) = andThen (term lookup o x) (terms lookup o xs) := by
  simp [terms, andThen]

/-- Literals that are made one give what they gave apart. -/
lemma terms_before (x : Term) (xs : List Term) :
    terms lookup o (x.before xs) = andThen (term lookup o x) (terms lookup o xs) := by
  rw [← terms_cons]
  rcases x with t | ⟨op, vs⟩
  · rcases xs with _ | ⟨u | ⟨op, vs⟩, xs⟩
    · rfl
    · simp [Term.before, terms, term]
    · rfl
  · rfl

theorem terms_joined (xs ys : List Term) :
    terms lookup o (Term.joined xs ys) = andThen (terms lookup o xs) (terms lookup o ys) := by
  match xs with
  | [] => simp [Term.joined, terms_nil, andThen]
  | [x] =>
    rw [Term.joined, terms_before, terms_cons, andThen_assoc]
    simp [terms_nil, andThen]
  | x :: x' :: xs => rw [Term.joined, terms_cons, terms_joined, terms_cons x, andThen_assoc]

lemma after_andThen (x y : Asking Text) (s : List Name) :
    after (andThen x y) s = match after x s with
      | (.ok t, s') => ((after y s').1.map (t ++ ·), (after y s').2)
      | (.error e, s') => (.error e, s') := by
  unfold andThen
  rcases hx : after x s with ⟨e | t, s'⟩
  · rw [after_bind_error hx]
  · rw [after_bind_ok hx]
    rcases hy : after y s' with ⟨e | u, s''⟩
    · simp only [after_bind_error hy, hy, Except.map]
    · simp only [after_bind_ok hy, after_pure, hy, Except.map]

/-! ### Starting anew -/

/-- A lookup when some names, in order, have been asked for before. -/
def Lookup.since (lookup : Lookup) (past : List Name) : Lookup :=
  fun asked n => lookup (asked ++ past.reverse) n

/-- The one computation does from the start what the other does when some names, in order, have
been asked for before. -/
def Resumes (past : List Name) (x y : Asking α) : Prop :=
  ∀ s, after y (s ++ past.reverse) = ((after x s).1, (after x s).2 ++ past.reverse)

lemma sequential_resumes (past : List Name) : Sequential (Resumes past) where
  pure a := by
    intro s
    rw [after_pure, after_pure]
  bind := by
    intro α β x y f g hx hf s
    have hy := hx s
    rcases h : after x s with ⟨e | a, s'⟩ <;> rw [h] at hy
    · rw [after_bind_error h, after_bind_error hy]
    · rw [after_bind_ok h, after_bind_ok hy, hf a s']

lemma resumes_variableUnits (past : List Name) (op : Operator) (v : Varspec) :
    Resumes past (variableUnits (lookup.since past) o op v) (variableUnits lookup o op v) := by
  intro s
  rw [after_variableUnits, after_variableUnits]
  rfl

/-- **Terms resume**: what is asked for before them matters only to the lookup. -/
theorem resumes_terms (past : List Name) (xs : List Term) :
    Resumes past (terms (lookup.since past) o xs) (terms lookup o xs) :=
  (sequential_resumes past).terms fun op v _ => resumes_variableUnits past op v

/-- One outcome and then another: an error of the first ends both, else the texts and the names
asked for follow each other. -/
def Outcome.followedBy (a b : Outcome) : Outcome :=
  match a.result with
  | .ok t => ⟨b.result.map (t ++ ·), a.asked ++ b.asked⟩
  | .error _ => a

/-- **Two expansions in a row**, the second of which starts where the first has ended. -/
theorem run_andThen {x y z : Asking Text} (h : Resumes (run x).asked z y) :
    run (andThen x y) = (run x).followedBy (run z) := by
  have hz := h []
  simp only [run_eq, List.reverse_reverse, List.nil_append] at hz
  simp only [run_eq, after_andThen]
  rcases hx : after x [] with ⟨e | t, s⟩
  · rfl
  · rw [hx] at hz
    simp only [Outcome.followedBy, hz, List.reverse_append]

end Expansion

/-! ### Concatenation -/

open Expansion

/-- **Texts in a row**: if the first one compiles, both together compile exactly if the second one
does; what is wrong with the second one is wrong with both, further on; and the terms are those of
the first and then those of the second, and so are the texts that they expand to, the names that
they ask for, and what they fail with. -/
theorem termsOf_append {a : Text} {xs : List Term} (h : termsOf a = .ok xs) (b : Text) :
    ((∃ zs, termsOf (a ++ b) = .ok zs) ↔ ∃ ys, termsOf b = .ok ys) ∧
      (∀ r, termsOf b = .error r → termsOf (a ++ b) = .error ⟨r.reason, a.length + r.pos⟩) ∧
      ∀ ys, termsOf b = .ok ys → termsOf (a ++ b) = .ok (Term.joined xs ys) ∧
        ∀ lookup o, run (terms lookup o (Term.joined xs ys)) =
          (run (terms lookup o xs)).followedBy
            (run (terms (lookup.since (run (terms lookup o xs)).asked) o ys)) := by
  obtain ⟨as, ha, hf, rfl⟩ := exists_items h
  have hexpand : ∀ ys lookup o, run (terms lookup o (Term.joined (Term.fused as) ys)) =
      (run (terms lookup o (Term.fused as))).followedBy
        (run (terms (lookup.since (run (terms lookup o (Term.fused as))).asked) o ys)) := by
    intro ys lookup o
    rw [terms_joined]
    exact run_andThen (resumes_terms _ ys)
  -- which of the three kinds of text the second one is decides all
  rcases Grammar.source_trichotomy b with ⟨u, ys, r, rfl, hu, hr, hne⟩ | ⟨i, hi⟩ | ⟨bs, hb, hfb⟩
  · have hb := termsOf_stuck hu hr hne
    have hab := termsOf_stuck (Grammar.source_append ha hu) hr hne
    rw [List.append_assoc, List.length_append] at hab
    simp [hb, hab]
  · have hb := termsOf_reservedAt hi
    have hab := termsOf_reservedAt (hi.append ha hf)
    simp [hb, hab]
  · have hb' := termsOf_ok hb hfb
    have hab := termsOf_ok (Grammar.source_append ha hb) fun x hx =>
      (List.mem_append.mp hx).elim (hf x) (hfb x)
    rw [Term.fused_append] at hab
    simp [hb', hab, hexpand]

/-- A literal on each side of the seam, and an operator that is set aside after it. -/
theorem seam_termsOf_append :
    let x : Term := .expression .simple [⟨lit "x", lit "x", .whole⟩]
    termsOf (lit "\x7bx\x7da") = .ok [x, .literal (lit "a")] ∧
      termsOf (lit "\x7bx\x7da" ++ lit "b\x7b=y\x7d") = .error ⟨.reservedOperator, 5⟩ ∧
      termsOf (lit "\x7bx\x7da" ++ lit "%41") = .ok [x, .literal (lit "a%41")] ∧
      ∀ lookup o, run (terms lookup o [x, .literal (lit "a%41")]) =
        (run (terms lookup o [x, .literal (lit "a")])).followedBy
          (run (terms (lookup.since (run (terms lookup o [x, .literal (lit "a")])).asked) o
            [.literal (lit "%41")])) := by
  intro x
  have ha : termsOf (lit "\x7bx\x7da") = .ok [x, .literal (lit "a")] := by decide +kernel
  have hr : termsOf (lit "b\x7b=y\x7d") = .error ⟨.reservedOperator, 1⟩ := by decide +kernel
  have hb : termsOf (lit "%41") = .ok [.literal (lit "%41")] := by decide +kernel
  obtain ⟨-, hreject, -⟩ := termsOf_append ha (lit "b\x7b=y\x7d")
  obtain ⟨-, -, hjoin⟩ := termsOf_append ha (lit "%41")
  exact ⟨ha, hreject _ hr, hjoin _ hb⟩

end UriTemplate

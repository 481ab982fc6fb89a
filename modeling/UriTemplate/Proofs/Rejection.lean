import UriTemplate.Proofs.Compilation

/-!
Where a text is rejected. Reading stops at the end of the longest part of the text that is a source,
and that is where an unexpected character is reported. Only a text that was read to its end is
rejected for an operator that is set aside, and then at the first expression that has one.
-/

namespace UriTemplate

namespace Grammar

/-- No item stands at the front. -/
def Stuck (r : Text) : Prop := ∀ u x t, Item u x → r ≠ u ++ t

/-- The first so many characters of a text are a source. -/
def Covers (s : Text) (p : Nat) : Prop := p ≤ s.length ∧ ∃ xs, Source (s.take p) xs

/-- A text is a source, and the first of its expressions whose operator is set aside starts at a
position. -/
inductive ReservedAt : Text → Nat → Prop where
  | mk {u v t : Text} {xs zs : List Term} {vs : List Varspec} (hu : Source u xs)
    (hx : ∀ x ∈ xs, x.isFuture = false) (hv : Expression v .future vs) (ht : Source t zs) :
    ReservedAt (u ++ (v ++ t)) u.length

lemma stuck_nil : Stuck [] := by
  intro u x t hu h
  exact Production.item_ne_nil hu (List.append_eq_nil_iff.mp h.symm).1

lemma source_append {u v : Text} {xs ys : List Term} (hu : Source u xs) (hv : Source v ys) :
    Source (u ++ v) (xs ++ ys) := by
  induction hu with
  | nil => exact hv
  | cons hx _ ih =>
    rw [List.append_assoc, List.cons_append]
    exact .cons hx ih

/-- A source in front of which no item was missed is the longest one. -/
theorem length_le_of_stuck {u v r t : Text} {xs ys : List Term} (hu : Source u xs)
    (hv : Source v ys) (hr : Stuck r) (h : v ++ t = u ++ r) : v.length ≤ u.length := by
  induction hv generalizing u xs with
  | nil => exact Nat.zero_le _
  | @cons v s y ys hy _ ih =>
    rcases Production.source_cases hu with ⟨rfl, -⟩ | ⟨w, s', x, xs, rfl, rfl, hx, hs⟩
    · rw [List.nil_append, List.append_assoc] at h
      exact absurd h.symm (hr v y _ hy)
    · rw [List.append_assoc, List.append_assoc] at h
      obtain ⟨rfl, -⟩ := Production.item_unique hy hx h
      have hle := ih hs (List.append_cancel_left h)
      rw [List.length_append, List.length_append]
      omega

/-- The longest part that is a source ends where no item stands. -/
lemma isGreatest_covers {u r : Text} {xs : List Term} (hu : Source u xs) (hr : Stuck r) :
    IsGreatest {p | Covers (u ++ r) p} u.length := by
  refine ⟨⟨by simp, xs, by rwa [List.take_left']; rfl⟩, ?_⟩
  rintro p ⟨hp, ys, hy⟩
  have h := length_le_of_stuck hu hy hr (List.take_append_drop p (u ++ r))
  rwa [List.length_take, Nat.min_eq_left hp] at h

/-- Among the items of a source there is a first whose operator is set aside, if there is any. -/
lemma exists_reservedAt {s : Text} {xs : List Term} (h : Source s xs) {x : Term} (hx : x ∈ xs)
    (hf : x.isFuture = true) : ∃ i, ReservedAt s i := by
  induction h with
  | nil => cases hx
  | @cons u t y ys hy ht ih =>
    by_cases hfy : y.isFuture = true
    · obtain ⟨w⟩ | ⟨op, vs⟩ := y
      · cases hfy
      · cases op <;> cases hfy
        cases hy with
        | expression he => exact ⟨0, .mk .nil (by simp) he ht⟩
    · rcases List.mem_cons.mp hx with rfl | hx
      · exact absurd hf hfy
      · obtain ⟨i, hi⟩ := ih hx
        obtain @⟨u', v, t', xs, zs, vs, hu, hxs, hv, ht'⟩ := hi
        refine ⟨(u ++ u').length, ?_⟩
        rw [← List.append_assoc]
        refine .mk (.cons hy hu) ?_ hv ht'
        simpa [hfy] using hxs

/-- An expression starts at the position. -/
lemma ReservedAt.brace {s : Text} {i : Nat} (h : ReservedAt s i) :
    s[i]? = some (.ofChar '{') := by
  obtain ⟨-, -, hv, -⟩ := h
  obtain ⟨-, -⟩ := hv
  simp

/-- **Every text** is one of three: a source and something after it where no item stands, a source
with an operator that is set aside, or a source without. -/
theorem source_trichotomy (s : Text) :
    (∃ u xs r, s = u ++ r ∧ Source u xs ∧ Stuck r ∧ r ≠ []) ∨ (∃ i, ReservedAt s i) ∨
      ∃ xs, Source s xs ∧ ∀ x ∈ xs, x.isFuture = false := by
  obtain ⟨u, xs, r, rfl, hu, hr⟩ := Production.exists_source s
  by_cases hne : r = []
  · subst hne
    rw [List.append_nil]
    by_cases hf : ∃ x ∈ xs, x.isFuture = true
    · obtain ⟨x, hx, hf⟩ := hf
      exact .inr (.inl (exists_reservedAt hu hx hf))
    · exact .inr (.inr ⟨xs, hu, by simpa using hf⟩)
  · exact .inl ⟨u, xs, r, rfl, hu, hr, hne⟩

end Grammar

namespace Production

lemma find?_placed (i : Nat) (x : Term) (ps : List (Nat × Term)) :
    (placed i x ps).find? (fun p => p.2.isFuture) =
      if x.isFuture then some (i, x) else ps.find? fun p => p.2.isFuture := by
  rcases x with t | ⟨op, vs⟩
  · rcases ps with _ | ⟨⟨j, t' | ⟨op', vs'⟩⟩, ps⟩ <;> rfl
  · by_cases h : (Term.expression op vs).isFuture = true <;> simp [placed, h]

/-- No reserved operator is found in a source without one, so that the first is one after it. -/
lemma find?_terms {u : Text} {xs : List Term} (h : Grammar.Source u xs)
    (hx : ∀ x ∈ xs, x.isFuture = false) (i : Nat) (r : Text) :
    (terms ⟨i, u ++ r⟩).1.find? (fun p => p.2.isFuture) =
      (terms ⟨i + u.length, r⟩).1.find? fun p => p.2.isFuture := by
  induction h generalizing i with
  | nil => rfl
  | @cons u s x xs hu _ ih =>
    have hxf := hx x (by simp)
    rw [List.append_assoc, terms_item hu, find?_placed, if_neg (by simp [hxf]),
      ih (fun y hy => hx y (List.mem_cons_of_mem _ hy)), List.length_append, ← Nat.add_assoc]

end Production

/-- Every modifier passes the checks that modifiers are made with: no cut is out of range, and none
explodes. -/
lemma Modifier.make_eq (m : Modifier) : make (m.cut?.map Int.ofNat) m.explodes = .ok m := by
  rcases m with _ | ⟨n, hn⟩ | _
  · rfl
  · simp [make, cut?, explodes, hn]
  · rfl

/-! ### The three outcomes -/

open Grammar

/-- **An unexpected character** is reported where no item stands, whatever was read before. -/
theorem termsOf_stuck {u r : Text} {xs : List Term} (hu : Source u xs) (hr : Stuck r)
    (hne : r ≠ []) : termsOf (u ++ r) = .error ⟨.unexpectedCharacter, u.length⟩ := by
  obtain ⟨-, h⟩ := Production.terms_source hu 0 r
  rw [Production.terms_stuck hr, Nat.zero_add] at h
  simp [termsOf, Cursor.start, h, hne]

/-- An operator that is set aside does not matter where reading stops after it. -/
example : termsOf (lit "a\x7b=x\x7db\x7b") = .error ⟨.unexpectedCharacter, 6⟩ := by decide +kernel

/-- **An operator that is set aside** is reported where its expression starts. -/
theorem termsOf_reservedAt {s : Text} {i : Nat} (h : ReservedAt s i) :
    termsOf s = .error ⟨.reservedOperator, i⟩ := by
  obtain @⟨u, v, t, xs, zs, vs, hu, hx, hv, ht⟩ := h
  have hsource := source_append hu (.cons (.expression hv) ht)
  obtain ⟨-, hend⟩ := Production.terms_source hsource 0 []
  rw [List.append_nil, Production.terms_stuck stuck_nil] at hend
  have hfind := Production.find?_terms hu hx 0 (v ++ t)
  have hfuture : (Term.expression .future vs).isFuture = true := rfl
  rw [Production.terms_item (.expression hv), Production.find?_placed, if_pos hfuture,
    Nat.zero_add] at hfind
  simp only [termsOf, Cursor.start, hend, hfind, List.isEmpty_nil, if_true]

namespace Template

/-- **Where compiling fails**: at the end of the longest part of the text that is a source, unless
that is all of it; otherwise at the brace of the first expression whose operator is set aside, if
there is one. In no other case does compiling fail, and the error always carries the text; wherever
a variable is read, it passes the checks that variables are made with. -/
theorem compile_outcome (s : Text) :
    (∀ k v k', Production.varspec k = some (v, k') →
      Modifier.make (v.modifier.cut?.map Int.ofNat) v.modifier.explodes = .ok v.modifier) ∧
    ∃ p, IsGreatest {q | Covers s q} p ∧
      (p < s.length →
        compile s = .error (.parse s p Reason.unexpectedCharacter.text)) ∧
      (p = s.length → ∃ xs, Source s xs ∧
        ((∃ x ∈ xs, x.isFuture = true) → ∃ i, ReservedAt s i ∧ s[i]? = some (.ofChar '{') ∧
          compile s = .error (.parse s i Reason.reservedOperator.text)) ∧
        ((∀ x ∈ xs, x.isFuture = false) → ∃ t, compile s = .ok t)) := by
  obtain ⟨u, xs, r, rfl, hu, hr⟩ := Production.exists_source s
  refine ⟨fun _ v _ _ => v.modifier.make_eq, u.length, isGreatest_covers hu hr, ?_, ?_⟩
  · intro hlt
    have hne : r ≠ [] := by
      rintro rfl
      simp at hlt
    exact compile_of_error (termsOf_stuck hu hr hne)
  · intro hlen
    obtain rfl : r = [] := by simpa using hlen
    rw [List.append_nil]
    refine ⟨xs, hu, ?_, ?_⟩
    · rintro ⟨x, hx, hf⟩
      obtain ⟨i, hi⟩ := exists_reservedAt hu hx hf
      exact ⟨i, hi, hi.brace, compile_of_error (termsOf_reservedAt hi)⟩
    · intro hf
      exact ⟨_, compile_of_termsOf (termsOf_ok hu hf)⟩

end Template

end UriTemplate

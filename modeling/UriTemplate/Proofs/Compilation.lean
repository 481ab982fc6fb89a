import UriTemplate.Proofs.Reading
import UriTemplate.Template

/-!
Compiling against the grammar. Reading terms from some place takes one item after another, each
merged with what follows, up to a place where no item stands. So a text compiles exactly if it is a
source without operators that are set aside, and its terms are the items of its only derivation.
-/

namespace UriTemplate

open Cursor

namespace Production

/-! ### One item -/

/-- A term that starts at a position, before others. Literals that meet are one. -/
def placed (i : Nat) : Term → List (Nat × Term) → List (Nat × Term)
  | .literal t, (_, .literal t') :: ps => (i, .literal (t ++ t')) :: ps
  | x, ps => (i, x) :: ps

lemma map_snd_placed (i : Nat) (x : Term) (ps : List (Nat × Term)) :
    (placed i x ps).map Prod.snd = x.before (ps.map Prod.snd) := by
  rcases x with t | ⟨op, vs⟩ <;> rcases ps with _ | ⟨⟨j, t' | ⟨op', vs'⟩⟩, ps⟩ <;> rfl

lemma terms_some {k k' : Cursor} {x : Term} (h : term k = some (x, k')) :
    terms k = ((k.pos, x) :: (terms k').1, (terms k').2) := by
  rw [terms]
  split <;> rename_i h' <;> rw [h] at h' <;> cases h'
  rfl

lemma terms_none {k : Cursor} (h : term k = none) : terms k = ([], k) := by
  rw [terms]
  split <;> rename_i h' <;> rw [h] at h'
  cases h'

lemma le_pos_literalsFrom (i : Nat) (s : Text) : i ≤ (literalsFrom i s).2.pos := by
  fun_induction literalsFrom i s with
  | case1 => exact Nat.le_refl _
  | case2 i c s t _ r ih => exact Nat.le_trans (Nat.le_succ i) ih
  | case3 i c _ a b s' _ r ih => exact Nat.le_trans (Nat.le_add_right i 3) ih
  | case4 => exact Nat.le_refl _
  | case5 => exact Nat.le_refl _

lemma term_literal {u t : Text} (h : Grammar.Literal u t) (i : Nat) (r : Text) :
    term ⟨i, u ++ r⟩ = some (.literal (t ++ (literals ⟨i + u.length, r⟩).1),
      (literals ⟨i + u.length, r⟩).2) := by
  have hu : 0 < u.length := by cases h <;> simp
  have hp := le_pos_literalsFrom (i + u.length) r
  have hl : literal ⟨i, u ++ r⟩ = some (.literal (t ++ (literals ⟨i + u.length, r⟩).1),
      (literals ⟨i + u.length, r⟩).2) := by
    simp only [literal, literals_cons h]
    rw [if_pos]
    simp only [literals]
    omega
  simp only [term, hl]

lemma term_no_literal {s : Text} (h : ∀ u t r, Grammar.Literal u t → s ≠ u ++ r) (i : Nat) :
    term ⟨i, s⟩ = expression ⟨i, s⟩ := by
  have hl : literal ⟨i, s⟩ = none := by
    simp [literal, literals_nil h]
  simp only [term, hl]

lemma literal_ne_brace {u t : Text} (hu : Grammar.Literal u t) (r s : Text) :
    u ++ r ≠ .ofChar '{' :: s := by
  intro h
  rcases literal_cases hu with ⟨c, rfl, hc⟩ | ⟨a, b, rfl, -⟩
  · cases h
    simp [literalChar?_eq_none] at hc
  · exact absurd (List.cons.inj h).1 (by decide)

lemma literal_ne_expression {u v t r s : Text} {op : Operator} {vs : List Varspec}
    (hu : Grammar.Literal u t) (hv : Grammar.Expression v op vs) : u ++ r ≠ v ++ s := by
  obtain ⟨-, -⟩ := hv
  exact literal_ne_brace hu r _

/-- **One item** at the front is taken and merged with the terms after it. -/
theorem terms_item {u : Text} {x : Term} (h : Grammar.Item u x) (i : Nat) (r : Text) :
    terms ⟨i, u ++ r⟩ =
      (placed i x (terms ⟨i + u.length, r⟩).1, (terms ⟨i + u.length, r⟩).2) := by
  cases h with
  | @literal t h =>
    rw [terms_some (term_literal h i r)]
    by_cases hr : ∃ v w z, Grammar.Literal v w ∧ r = v ++ z
    · -- the run goes on, and reading from its second character on gives the rest of it
      obtain ⟨v, w, z, hv, rfl⟩ := hr
      rw [terms_some (term_literal hv _ z), literals_cons hv]
      rfl
    · have hr : ∀ v w z, Grammar.Literal v w → r ≠ v ++ z :=
        fun v w z hv e => hr ⟨v, w, z, hv, e⟩
      rw [literals_nil hr, List.append_nil]
      rcases he : expression ⟨i + u.length, r⟩ with _ | ⟨x, k'⟩
      · rw [terms_none (by rw [term_no_literal hr, he])]
        rfl
      · obtain ⟨v, op, vs, rfl, -⟩ := expression_sound he
        rw [terms_some (by rw [term_no_literal hr, he])]
        rfl
  | @expression op vs h =>
    have hr : ∀ v w z, Grammar.Literal v w → u ++ r ≠ v ++ z :=
      fun v w z hv e => literal_ne_expression hv h e.symm
    rw [terms_some (by rw [term_no_literal hr, expression_complete h])]
    rfl

/-- Where no item stands, no term is read. -/
theorem terms_stuck {s : Text} (h : ∀ u x r, Grammar.Item u x → s ≠ u ++ r) (i : Nat) :
    terms ⟨i, s⟩ = ([], ⟨i, s⟩) := by
  refine terms_none ?_
  rw [term_no_literal fun u t r hu => h u _ r (.literal hu)]
  rcases he : expression ⟨i, s⟩ with _ | ⟨x, k'⟩
  · rfl
  · obtain ⟨u, op, vs, rfl, hu, hx⟩ := expression_sound he
    exact absurd hu.1 (h u _ _ (.expression hx))

lemma item_ne_nil {u : Text} {x : Term} (h : Grammar.Item u x) : u ≠ [] := by
  rcases h with ⟨⟨⟩⟩ | ⟨⟨⟩⟩ <;> simp

/-! ### All items -/

/-- **A source** at the front is taken item by item. -/
theorem terms_source {u : Text} {xs : List Term} (h : Grammar.Source u xs) (i : Nat) (r : Text) :
    (terms ⟨i, u ++ r⟩).1.map Prod.snd =
        xs.foldr Term.before ((terms ⟨i + u.length, r⟩).1.map Prod.snd) ∧
      (terms ⟨i, u ++ r⟩).2 = (terms ⟨i + u.length, r⟩).2 := by
  induction h generalizing i with
  | nil => exact ⟨rfl, rfl⟩
  | @cons u s x xs hx hs ih =>
    obtain ⟨h1, h2⟩ := ih (i + u.length)
    rw [List.append_assoc, terms_item hx, map_snd_placed, List.foldr_cons, List.length_append,
      ← Nat.add_assoc, h1]
    exact ⟨rfl, h2⟩

/-- Every text is a source and something after it where no item stands. -/
theorem exists_source (s : Text) : ∃ u xs r, s = u ++ r ∧ Grammar.Source u xs ∧
    ∀ v x t, Grammar.Item v x → r ≠ v ++ t := by
  by_cases h : ∃ v x t, Grammar.Item v x ∧ s = v ++ t
  · obtain ⟨v, x, t, hv, hs⟩ := h
    have hlt : t.length < s.length := by
      have hv := List.length_pos_iff.mpr (item_ne_nil hv)
      rw [hs, List.length_append]
      omega
    obtain ⟨u, xs, r, rfl, hu, hr⟩ := exists_source t
    exact ⟨v ++ u, x :: xs, r, by rw [hs, List.append_assoc], .cons hv hu, hr⟩
  · exact ⟨[], [], s, rfl, .nil, fun v x t hv e => h ⟨v, x, t, hv, e⟩⟩
termination_by s.length
decreasing_by exact hlt

/-! ### No two derivations -/

lemma literal_unique {u v t w r s : Text} (hu : Grammar.Literal u t) (hv : Grammar.Literal v w)
    (h : u ++ r = v ++ s) : u = v ∧ t = w := by
  rcases literal_cases hu with ⟨c, rfl, hc⟩ | ⟨a, b, rfl, rfl, -⟩ <;>
    rcases literal_cases hv with ⟨d, rfl, hd⟩ | ⟨a', b', rfl, rfl, -⟩ <;> cases h
  · rw [hc] at hd
    cases hd
    exact ⟨rfl, rfl⟩
  · simp [literalChar?_eq_none] at hc
  · simp [literalChar?_eq_none] at hd
  · exact ⟨rfl, rfl⟩

lemma expression_unique {u v r s : Text} {op op' : Operator} {vs vs' : List Varspec}
    (hu : Grammar.Expression u op vs) (hv : Grammar.Expression v op' vs') (h : u ++ r = v ++ s) :
    u = v ∧ Term.expression op vs = .expression op' vs' := by
  have h1 := expression_complete hu 0 r
  rw [h, expression_complete hv] at h1
  simp only [Option.some.injEq, Prod.mk.injEq, Cursor.mk.injEq] at h1
  obtain ⟨hx, -, rfl⟩ := h1
  exact ⟨List.append_cancel_right h, hx.symm⟩

/-- What stands at the front of a text stands there in one way. -/
theorem item_unique {u v r s : Text} {x y : Term} (hu : Grammar.Item u x)
    (hv : Grammar.Item v y) (h : u ++ r = v ++ s) : u = v ∧ x = y := by
  cases hu with
  | literal hu =>
    cases hv with
    | literal hv =>
      obtain ⟨rfl, rfl⟩ := literal_unique hu hv h
      exact ⟨rfl, rfl⟩
    | expression hv => exact absurd h (literal_ne_expression hu hv)
  | expression hu =>
    cases hv with
    | literal hv => exact absurd h.symm (literal_ne_expression hv hu)
    | expression hv => exact expression_unique hu hv h

lemma source_cases {w : Text} {ys : List Term} (h : Grammar.Source w ys) :
    (w = [] ∧ ys = []) ∨ ∃ u s y zs, w = u ++ s ∧ ys = y :: zs ∧ Grammar.Item u y ∧
      Grammar.Source s zs := by
  cases h with
  | nil => exact .inl ⟨rfl, rfl⟩
  | cons hu hs => exact .inr ⟨_, _, _, _, rfl, rfl, hu, hs⟩

/-- **A source has one derivation.** -/
theorem source_unique {u : Text} {xs ys : List Term} (hx : Grammar.Source u xs)
    (hy : Grammar.Source u ys) : xs = ys := by
  induction hx generalizing ys with
  | nil =>
    rcases source_cases hy with ⟨-, rfl⟩ | ⟨v, t, y, zs, h, rfl, hv, -⟩
    · rfl
    · exact absurd (List.append_eq_nil_iff.mp h.symm).1 (item_ne_nil hv)
  | @cons u s x xs hu hs ih =>
    rcases source_cases hy with ⟨h, -⟩ | ⟨v, t, y, zs, h, rfl, hv, ht⟩
    · exact absurd (List.append_eq_nil_iff.mp h).1 (item_ne_nil hu)
    · obtain ⟨rfl, rfl⟩ := item_unique hu hv h
      obtain rfl := List.append_cancel_left h
      rw [ih ht]

end Production

/-! ### Compiling -/

namespace Term

lemma any_before (p : Term → Bool) (hp : ∀ t, p (.literal t) = false) (x : Term)
    (ts : List Term) : (x.before ts).any p = (p x || ts.any p) := by
  rcases x with t | ⟨op, vs⟩ <;> rcases ts with _ | ⟨t' | ⟨op', vs'⟩, ts⟩ <;> simp [before, hp]

lemma any_fused (p : Term → Bool) (hp : ∀ t, p (.literal t) = false) (xs : List Term) :
    (fused xs).any p = xs.any p := by
  induction xs with
  | nil => rfl
  | cons x xs ih => rw [fused, List.foldr_cons, any_before p hp, ← fused, ih, List.any_cons]

end Term

/-- Reading a source takes all of it. -/
theorem termsOf_source {s : Text} {xs : List Term} (h : Grammar.Source s xs) (ts : List Term) :
    termsOf s = .ok ts ↔ xs.any Term.isFuture = false ∧ Term.fused xs = ts := by
  obtain ⟨h1, h2⟩ := Production.terms_source h 0 []
  rw [List.append_nil, Production.terms_stuck fun u x r hu e =>
    Production.item_ne_nil hu (List.append_eq_nil_iff.mp e.symm).1] at h1 h2
  change _ = Term.fused xs at h1
  have hf : xs.any Term.isFuture = (Production.terms ⟨0, s⟩).1.any fun p => p.2.isFuture := by
    rw [← Term.any_fused Term.isFuture fun _ => rfl, ← h1, List.any_map]
    rfl
  rw [hf, ← h1]
  simp only [termsOf, Cursor.start, h2, List.isEmpty_nil, if_true]
  generalize (Production.terms ⟨0, s⟩).1 = ps
  rcases hfind : ps.find? fun p => p.2.isFuture with _ | p
  · have ha : (ps.any fun p => p.2.isFuture) = false := by
      simpa using List.find?_eq_none.mp hfind
    rw [hfind]
    simp [ha]
  · have hp : p.2.isFuture = true := by
      simpa using List.find?_some hfind
    have ha : (ps.any fun p => p.2.isFuture) = true :=
      List.any_eq_true.mpr ⟨p, List.mem_of_find?_eq_some hfind, hp⟩
    rw [hfind]
    simp [ha]

/-- A text that compiles is read to its end. -/
theorem source_of_termsOf {s : Text} {ts : List Term} (h : termsOf s = .ok ts) :
    ∃ xs, Grammar.Source s xs := by
  obtain ⟨u, xs, r, rfl, hu, hr⟩ := Production.exists_source s
  obtain ⟨-, h2⟩ := Production.terms_source hu 0 r
  rw [Production.terms_stuck hr] at h2
  rcases r with _ | ⟨c, r⟩
  · exact ⟨xs, by rwa [List.append_nil]⟩
  · simp [termsOf, Cursor.start, h2] at h

/-- A source without an operator that is set aside compiles, to its items with every run of literals
made one. -/
theorem termsOf_ok {s : Text} {xs : List Term} (h : Grammar.Source s xs)
    (hx : ∀ x ∈ xs, x.isFuture = false) : termsOf s = .ok (Term.fused xs) :=
  (termsOf_source h _).mpr ⟨by simpa using hx, rfl⟩

/-- Whatever compiles is such a source. -/
theorem exists_items {s : Text} {ts : List Term} (h : termsOf s = .ok ts) :
    ∃ xs, Grammar.Source s xs ∧ (∀ x ∈ xs, x.isFuture = false) ∧ Term.fused xs = ts := by
  obtain ⟨xs, hs⟩ := source_of_termsOf h
  obtain ⟨hf, ht⟩ := (termsOf_source hs ts).mp h
  exact ⟨xs, hs, by simpa using hf, ht⟩

namespace Template

lemma compile_of_termsOf {s : Text} {ts : List Term} (h : termsOf s = .ok ts) :
    compile s = .ok ⟨s, ts, h⟩ := by
  unfold compile
  split
  · rename_i ts' h'
    rw [h] at h'
    cases h'
    rfl
  · rename_i h'
    rw [h] at h'
    cases h'

lemma compile_of_error {s : Text} {r : Rejection} (h : termsOf s = .error r) :
    compile s = .error (.parse s r.pos r.reason.text) := by
  unfold compile
  split
  · rename_i h'
    rw [h] at h'
    cases h'
  · rename_i h'
    rw [h] at h'
    cases h'
    rfl

lemma expandSource_of_termsOf {s : Text} {ts : List Term} (h : termsOf s = .ok ts) {b : Bindings}
    {lookup : Expansion.Lookup} (hb : b.lookup = .ok lookup) (o : Options) :
    expandSource s b o = Expansion.run (Expansion.terms lookup o ts) := by
  rw [expandSource, compile_of_termsOf h]
  simp only [expand, hb]

end Template

/-- **What compiles**: exactly the sources without an operator that is set aside, and the terms are
the items of the only derivation with every run of literals made one. -/
theorem termsOf_eq_ok_iff {s : Text} {ts : List Term} :
    termsOf s = .ok ts ↔ ∃ xs, (∀ ys, Grammar.Source s ys ↔ ys = xs) ∧
      (∀ x ∈ xs, x.isFuture = false) ∧ Term.fused xs = ts := by
  constructor
  · intro h
    obtain ⟨xs, hs⟩ := source_of_termsOf h
    obtain ⟨hf, ht⟩ := (termsOf_source hs ts).mp h
    refine ⟨xs, fun ys => ⟨fun hy => Production.source_unique hy hs, ?_⟩, by simpa using hf, ht⟩
    rintro rfl
    exact hs
  · rintro ⟨xs, hs, hf, ht⟩
    exact (termsOf_source ((hs xs).mpr rfl) ts).mpr ⟨by simpa using hf, ht⟩

end UriTemplate

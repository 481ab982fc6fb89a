import Mathlib
import UriTemplate.Expansion

/-!
How expansions run. A computation that asks for names is a function of the names asked for before,
and the lemmas here open its steps and its loops, so that nothing later looks into the monad. An
expression gives a text exactly if each of its variables in turn is answered with a value that has
units; the text is put together from these units, and the names asked for are those of the
variables.
-/

namespace UriTemplate

/-- The variables that occur in a term, in order. -/
def Term.vars : Term → List Varspec
  | literal _ => []
  | expression _ vars => vars

namespace Expansion

variable {α β : Type}

/-! ### Computations that ask -/

/-- How a computation ends when some names have been asked for before, and the names asked for by
then. -/
def after (x : Asking α) (asked : List Name) : Except Error α × List Name :=
  Id.run (StateT.run (ExceptT.run x) asked)

lemma run_eq (x : Asking Text) : run x = ⟨(after x []).1, (after x []).2.reverse⟩ := rfl

lemma after_pure (a : α) (s : List Name) : after (pure a) s = (.ok a, s) := rfl

lemma after_throw (e : Error) (s : List Name) : after (throw e : Asking α) s = (.error e, s) := rfl

lemma after_ofExcept (x : Except Error α) (s : List Name) :
    after (MonadExcept.ofExcept x) s = (x, s) := by
  rcases x with e | a <;> rfl

lemma after_bind_ok {x : Asking α} {s s' : List Name} {a : α} (h : after x s = (.ok a, s'))
    (f : α → Asking β) : after (x >>= f) s = after (f a) s' := by
  unfold after at *
  rw [ExceptT.run_bind, StateT.run_bind, Id.run_bind, h]

lemma after_bind_error {x : Asking α} {s s' : List Name} {e : Error}
    (h : after x s = (.error e, s')) (f : α → Asking β) : after (x >>= f) s = (.error e, s') := by
  unfold after at *
  rw [ExceptT.run_bind, StateT.run_bind, Id.run_bind, h]
  rfl

/-- A step that succeeds is one whose parts succeed. -/
lemma after_bind_eq_ok {x : Asking α} {f : α → Asking β} {s s'' : List Name} {b : β} :
    after (x >>= f) s = (.ok b, s'') ↔
      ∃ a s', after x s = (.ok a, s') ∧ after (f a) s' = (.ok b, s'') := by
  rcases h : after x s with ⟨e | a, s'⟩
  · rw [after_bind_error h]
    simp
  · rw [after_bind_ok h]
    constructor
    · intro hb
      exact ⟨a, s', rfl, hb⟩
    · rintro ⟨_, _, ⟨⟩, hb⟩
      exact hb

lemma after_mapM_nil (f : α → Asking β) (s : List Name) : after ([].mapM f) s = (.ok [], s) := by
  rw [List.mapM_nil, after_pure]

lemma after_mapM_cons {f : α → Asking β} {x : α} {xs : List α} {s s'' : List Name}
    {ys : List β} :
    after ((x :: xs).mapM f) s = (.ok ys, s'') ↔ ∃ y s' zs, after (f x) s = (.ok y, s') ∧
      after (xs.mapM f) s' = (.ok zs, s'') ∧ ys = y :: zs := by
  rw [List.mapM_cons, after_bind_eq_ok]
  constructor
  · rintro ⟨y, s', hy, h⟩
    obtain ⟨zs, s₂, hz, h⟩ := after_bind_eq_ok.mp h
    rw [after_pure] at h
    cases h
    exact ⟨y, s', zs, hy, hz, rfl⟩
  · rintro ⟨y, s', zs, hy, hz, rfl⟩
    refine ⟨y, s', hy, ?_⟩
    rw [after_bind_ok hz, after_pure]

/-- What a loop gives, one of its steps gave. -/
lemma exists_of_mem_mapM {f : α → Asking β} {xs : List α} {s s' : List Name} {ys : List β}
    (h : after (xs.mapM f) s = (.ok ys, s')) {y : β} (hy : y ∈ ys) :
    ∃ x ∈ xs, ∃ r r', after (f x) r = (.ok y, r') := by
  induction xs generalizing s ys with
  | nil =>
    rw [after_mapM_nil] at h
    cases h
    cases hy
  | cons x xs ih =>
    obtain ⟨z, s₁, zs, hz, hzs, rfl⟩ := after_mapM_cons.mp h
    rcases List.mem_cons.mp hy with rfl | hy
    · exact ⟨x, by simp, s, s₁, hz⟩
    · obtain ⟨w, hw, hy⟩ := ih hzs hy
      exact ⟨w, List.mem_cons_of_mem _ hw, hy⟩

/-! ### Variables -/

variable {lookup : Lookup} {o : Options} {op : Operator}

/-- The units of a variable for the value that it is answered with. -/
def unitsFor (o : Options) (op : Operator) (v : Varspec) (x : Value) : Except Error (List Text) :=
  if x = .undefined ∧ o.allowsUndefined = false then .error (.missingVariable v.name)
  else v.units op x

lemma unitsFor_eq_ok {v : Varspec} {x : Value} {us : List Text}
    (h : unitsFor o op v x = .ok us) : v.units op x = .ok us := by
  unfold unitsFor at h
  split_ifs at h
  exact h

lemma unitsFor_of_allows (ho : o.allowsUndefined = true) (v : Varspec) (x : Value) :
    unitsFor o op v x = v.units op x := by
  simp [unitsFor, ho]

lemma unitsFor_of_ne {x : Value} (hx : x ≠ .undefined) (v : Varspec) :
    unitsFor o op v x = v.units op x :=
  if_neg fun h => hx h.1

/-- Some variables are answered with values, in turn, when some names have been asked for before. -/
def Answers (lookup : Lookup) : List Name → List (Varspec × Value) → Prop
  | _, [] => True
  | asked, (v, x) :: ps => lookup asked v.name = .ok x ∧ Answers lookup (v.name :: asked) ps

/-- Some variables, answered with values, give some units each. -/
abbrev Give (o : Options) (op : Operator) : List (Varspec × Value) → List (List Text) → Prop :=
  List.Forall₂ fun p us => unitsFor o op p.1 p.2 = .ok us

/-- Each unit is one of some variable for its answer. -/
lemma exists_of_give {ps : List (Varspec × Value)} {uss : List (List Text)}
    (h : Give o op ps uss) {u : Text} (hu : u ∈ uss.flatten) :
    ∃ p ∈ ps, ∃ us, p.1.units op p.2 = .ok us ∧ u ∈ us := by
  induction h with
  | nil => cases hu
  | @cons p us ps uss hp _ ih =>
    rw [List.flatten_cons] at hu
    rcases List.mem_append.mp hu with hu | hu
    · exact ⟨p, by simp, us, unitsFor_eq_ok hp, hu⟩
    · obtain ⟨q, hq, hus⟩ := ih hu
      exact ⟨q, List.mem_cons_of_mem _ hq, hus⟩

lemma after_ask (n : Name) (s : List Name) : after (ask lookup n) s = (lookup s n, n :: s) := by
  have hget : after (get : Asking (List Name)) s = (.ok s, s) := rfl
  have hset : after (set (n :: s) : Asking PUnit) s = (.ok ⟨⟩, n :: s) := rfl
  rw [ask, after_bind_ok hget, after_bind_ok hset, after_ofExcept]

lemma after_variableUnits (v : Varspec) (s : List Name) :
    after (variableUnits lookup o op v) s =
      ((lookup s v.name).bind (unitsFor o op v), v.name :: s) := by
  unfold variableUnits
  rcases h : lookup s v.name with e | x
  · rw [after_bind_error (by rw [after_ask, h])]
    rfl
  · rw [after_bind_ok (by rw [after_ask, h]), Except.bind]
    unfold unitsFor
    split_ifs
    · rw [after_throw]
    · rw [after_ofExcept]

/-- **The variables of an expression** succeed together if each is answered and has units. -/
theorem after_variables {vars : List Varspec} {s s' : List Name} {uss : List (List Text)} :
    after (vars.mapM (variableUnits lookup o op)) s = (.ok uss, s') ↔
      ∃ ps, ps.map Prod.fst = vars ∧ Answers lookup s ps ∧ Give o op ps uss ∧
        s' = (vars.map Varspec.name).reverse ++ s := by
  induction vars generalizing s uss with
  | nil =>
    rw [after_mapM_nil]
    constructor
    · intro h
      cases h
      exact ⟨[], rfl, trivial, .nil, rfl⟩
    · rintro ⟨ps, hps, -, hg, rfl⟩
      obtain rfl := List.map_eq_nil_iff.mp hps
      cases hg
      rfl
  | cons v vars ih =>
    rw [after_mapM_cons]
    constructor
    · rintro ⟨us, s₁, vss, hu, hv, rfl⟩
      obtain ⟨ps, rfl, ha, hg, rfl⟩ := ih.mp hv
      rw [after_variableUnits] at hu
      rcases hx : lookup s v.name with e | x
      · rw [hx] at hu
        cases hu
      · rw [hx, Except.bind, Prod.mk.injEq] at hu
        obtain ⟨hu, rfl⟩ := hu
        exact ⟨(v, x) :: ps, rfl, ⟨hx, ha⟩, .cons hu hg, by simp⟩
    · rintro ⟨ps, hps, ha, hg, rfl⟩
      obtain ⟨⟨v, x⟩, ps, rfl, rfl, rfl⟩ := List.map_eq_cons_iff.mp hps
      rcases hg with - | ⟨hu, hg⟩
      refine ⟨_, v.name :: s, _, ?_, ih.mpr ⟨ps, rfl, ha.2, hg, ?_⟩, rfl⟩
      · rw [after_variableUnits, ha.1, Except.bind, hu]
      · simp

/-- **An expression** gives a text if its variables are answered and have units. -/
theorem after_expression {vars : List Varspec} {s s' : List Name} {t : Text} :
    after (expression lookup o op vars) s = (.ok t, s') ↔
      ∃ ps uss, ps.map Prod.fst = vars ∧ Answers lookup s ps ∧ Give o op ps uss ∧
        t = op.assemble uss.flatten ∧ s' = (vars.map Varspec.name).reverse ++ s := by
  unfold expression
  rw [after_bind_eq_ok]
  constructor
  · rintro ⟨uss, s₁, h, ht⟩
    obtain ⟨ps, hps, ha, hg, rfl⟩ := after_variables.mp h
    rw [after_pure] at ht
    cases ht
    exact ⟨ps, uss, hps, ha, hg, rfl, rfl⟩
  · rintro ⟨ps, uss, hps, ha, hg, rfl, rfl⟩
    exact ⟨uss, _, after_variables.mpr ⟨ps, hps, ha, hg, rfl⟩, after_pure _ _⟩

/-- The expansion of an expression alone. -/
lemma run_expression {vars : List Varspec} {t : Text} :
    (run (expression lookup o op vars)).result = .ok t ↔
      ∃ ps uss, ps.map Prod.fst = vars ∧ Answers lookup [] ps ∧ Give o op ps uss ∧
        t = op.assemble uss.flatten := by
  rw [run_eq]
  constructor
  · intro h
    obtain ⟨ps, uss, hps, ha, hg, ht, -⟩ := after_expression.mp (Prod.ext h rfl)
    exact ⟨ps, uss, hps, ha, hg, ht⟩
  · rintro ⟨ps, uss, hps, ha, hg, ht⟩
    rw [after_expression.mpr ⟨ps, uss, hps, ha, hg, ht, rfl⟩]

/-! ### Terms -/

/-- What terms give together is what they give in turn. -/
lemma after_terms {ts : List Term} {s s' : List Name} {t : Text} :
    after (terms lookup o ts) s = (.ok t, s') ↔
      ∃ texts, after (ts.mapM (term lookup o)) s = (.ok texts, s') ∧ t = texts.flatten := by
  unfold terms
  rw [after_bind_eq_ok]
  constructor
  · rintro ⟨texts, s₁, h, ht⟩
    rw [after_pure] at ht
    cases ht
    exact ⟨texts, h, rfl⟩
  · rintro ⟨texts, h, rfl⟩
    exact ⟨texts, s', h, after_pure _ _⟩

/-- The expansion of a single term. -/
lemma run_terms_singleton {x : Term} {t : Text} {s : List Name}
    (h : after (term lookup o x) [] = (.ok t, s)) :
    (run (terms lookup o [x])).result = .ok t := by
  have hmap : after ([x].mapM (term lookup o)) [] = (.ok [t], s) :=
    after_mapM_cons.mpr ⟨t, s, [], h, after_mapM_nil _ _, rfl⟩
  have hterms := after_terms.mpr ⟨[t], hmap, rfl⟩
  rw [run_eq, hterms, List.flatten_singleton]

/-! ### Two expansions side by side -/

/-- A relation between computations that is kept by doing one thing after another. -/
structure Sequential (R : ∀ {α : Type}, Asking α → Asking α → Prop) : Prop where
  pure {α : Type} (a : α) : R (Pure.pure a) (Pure.pure a)
  bind {α β : Type} {x y : Asking α} {f g : α → Asking β} (hx : R x y) (hf : ∀ a, R (f a) (g a)) :
    R (x >>= f) (y >>= g)

namespace Sequential

variable {R : ∀ {α : Type}, Asking α → Asking α → Prop}

lemma mapM (hR : Sequential R) {f g : α → Asking β} {xs : List α}
    (h : ∀ x ∈ xs, R (f x) (g x)) : R (xs.mapM f) (xs.mapM g) := by
  induction xs with
  | nil => exact hR.pure []
  | cons x xs ih =>
    rw [List.mapM_cons, List.mapM_cons]
    have hxs := ih fun y hy => h y (List.mem_cons_of_mem _ hy)
    exact hR.bind (h x (by simp)) fun b => hR.bind hxs fun bs => hR.pure (b :: bs)

/-- **Expansions are related** if the variables that occur in them are. -/
theorem terms (hR : Sequential R) {lookup lookup' : Lookup} {o o' : Options} {ts : List Term}
    (h : ∀ op, ∀ v ∈ ts.flatMap Term.vars,
      R (variableUnits lookup o op v) (variableUnits lookup' o' op v)) :
    R (Expansion.terms lookup o ts) (Expansion.terms lookup' o' ts) := by
  refine hR.bind (hR.mapM fun x hx => ?_) fun texts => hR.pure texts.flatten
  rcases x with t | ⟨op, vs⟩
  · exact hR.pure t
  · have hvs : ∀ v ∈ vs, R (variableUnits lookup o op v) (variableUnits lookup' o' op v) :=
      fun v hv => h op v (List.mem_flatMap.mpr ⟨_, hx, hv⟩)
    exact hR.bind (hR.mapM hvs) fun uss => hR.pure (op.assemble uss.flatten)

end Sequential

end Expansion

end UriTemplate

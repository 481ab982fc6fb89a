import UriTemplate.Proofs.Evaluation

/-!
How expansions fail. The variables that occur in the expressions are asked for in turn, each
occurrence once. The first occurrence that fails ends the expansion with its error, and nothing is
asked for after it; if none fails, a text comes of it.
-/

namespace UriTemplate.Expansion

variable {α β : Type} {lookup : Lookup} {o : Options} {op : Operator}

/-! ### Occurrences -/

/-- An occurrence of a variable fails, with an error, for what its name is answered with: the lookup
fails; a list or a map, empty or not, would have to be cut; or there is no value where there has to
be one. -/
inductive Fails (o : Options) (v : Varspec) : Except Error Value → Error → Prop where
  | lookup (e : Error) : Fails o v (.error e) e
  | list {n : CutLength} (h : v.modifier = .cut n) (ts : List Text) :
    Fails o v (.ok (.list ts)) (.modifierConflict v.name (lit "list"))
  | map {n : CutLength} (h : v.modifier = .cut n) (es : List (Text × Text)) :
    Fails o v (.ok (.map es)) (.modifierConflict v.name (lit "map"))
  | missing (h : o.allowsUndefined = false) :
    Fails o v (.ok .undefined) (.missingVariable v.name)

/-- None of some occurrences fails, when some names have been asked for before them. -/
def NoneFails (lookup : Lookup) (o : Options) : List Name → List Varspec → Prop
  | _, [] => True
  | asked, v :: w =>
    (∀ e, ¬ Fails o v (lookup asked v.name) e) ∧ NoneFails lookup o (v.name :: asked) w

/-- Of some occurrences, those of `u` and then `v` are the first ones, and `v` is the first that
fails. -/
structure FirstFails (lookup : Lookup) (o : Options) (asked : List Name) (w u : List Varspec)
    (v : Varspec) (e : Error) : Prop where
  occurs : u ++ [v] <+: w
  before : NoneFails lookup o asked u
  fails : Fails o v (lookup ((u.map Varspec.name).reverse ++ asked) v.name) e

/-- An occurrence fails exactly if it has no units. -/
lemma fails_iff {v : Varspec} {x : Except Error Value} {e : Error} :
    Fails o v x e ↔ x.bind (unitsFor o op v) = .error e := by
  constructor
  · rintro (_ | ⟨h, _⟩ | ⟨h, _⟩ | h)
    · rfl
    · simp [Except.bind, unitsFor, Varspec.units, h]
    · simp [Except.bind, unitsFor, Varspec.units, h]
    · simp [Except.bind, unitsFor, h]
  · obtain e' | (_ | t | ts | es) := x
    · rintro ⟨⟩
      exact .lookup e
    · simp only [Except.bind, unitsFor, Varspec.units]
      split_ifs with h
      · rintro ⟨⟩
        exact .missing h.2
      · rintro ⟨⟩
    · rcases h : v.modifier <;> simp [Except.bind, unitsFor, Varspec.units, h]
    · rcases h : v.modifier <;> simp only [Except.bind, unitsFor, Varspec.units, h] <;> rintro ⟨⟩
      exact .list h ts
    · rcases h : v.modifier <;> simp only [Except.bind, unitsFor, Varspec.units, h] <;> rintro ⟨⟩
      exact .map h es

lemma noneFails_append {u w : List Varspec} {s : List Name} :
    NoneFails lookup o s (u ++ w) ↔
      NoneFails lookup o s u ∧ NoneFails lookup o ((u.map Varspec.name).reverse ++ s) w := by
  induction u generalizing s with
  | nil => simp [NoneFails]
  | cons v u ih => simp [NoneFails, ih, and_assoc]

/-- The first failure of occurrences in a row is one of the first ones, or it is one of the others
and none of the first ones fails. -/
lemma firstFails_append {w w' u : List Varspec} {v : Varspec} {e : Error} {s : List Name}
    (h : FirstFails lookup o s (w ++ w') u v e) :
    FirstFails lookup o s w u v e ∨ ∃ u', u = w ++ u' ∧ NoneFails lookup o s w ∧
      FirstFails lookup o ((w.map Varspec.name).reverse ++ s) w' u' v e := by
  obtain ⟨z, hz⟩ := h.occurs
  have hbefore := h.before
  have hfails := h.fails
  rw [List.append_assoc] at hz
  -- `u` ends within `w`, where `v` may still be the first after `w`, or it goes on after `w`
  obtain ⟨u', rfl, hu'⟩ | ⟨w₂, rfl, hw₂⟩ := List.append_eq_append_iff.mp hz
  · rcases u' with _ | ⟨v', u'⟩
    · refine .inr ⟨[], by simp, by simpa using hbefore, ⟨z, by simpa using hu'⟩, trivial, ?_⟩
      simpa using hfails
    · rw [List.singleton_append, List.cons_append, List.cons.injEq] at hu'
      obtain ⟨rfl, rfl⟩ := hu'
      exact .inl ⟨⟨u', by simp⟩, hbefore, hfails⟩
  · rw [noneFails_append] at hbefore
    refine .inr ⟨w₂, rfl, hbefore.1, ⟨z, by rw [hw₂, List.append_assoc]⟩, hbefore.2, ?_⟩
    simpa using hfails

/-- Either none fails or one is the first that fails. -/
lemma exists_firstFails {w : List Varspec} {s : List Name} (h : ¬ NoneFails lookup o s w) :
    ∃ u v e, FirstFails lookup o s w u v e := by
  induction w generalizing s with
  | nil => exact absurd trivial h
  | cons v w ih =>
    by_cases hv : ∃ e, Fails o v (lookup s v.name) e
    · obtain ⟨e, he⟩ := hv
      exact ⟨[], v, e, ⟨w, rfl⟩, trivial, he⟩
    · rw [not_exists] at hv
      obtain ⟨u, v', e, ⟨z, hz⟩, hu, he⟩ := ih fun hw => h ⟨hv, hw⟩
      refine ⟨v :: u, v', e, ⟨z, by rw [← hz]; rfl⟩, ⟨hv, hu⟩, ?_⟩
      simpa using he

/-! ### Runs -/

/-- A computation asks for some occurrences in turn: it gives a result if none of them fails, and
otherwise ends with the first failure. -/
def Follows (lookup : Lookup) (o : Options) (w : List Varspec) (x : Asking α) : Prop :=
  ∀ s, (NoneFails lookup o s w →
      ∃ a, after x s = (.ok a, (w.map Varspec.name).reverse ++ s)) ∧
    ∀ u v e, FirstFails lookup o s w u v e →
      after x s = (.error e, ((u ++ [v]).map Varspec.name).reverse ++ s)

lemma Follows.pure (a : α) : Follows lookup o [] (Pure.pure a) := by
  intro s
  refine ⟨fun _ => ⟨a, after_pure a s⟩, ?_⟩
  rintro u v e ⟨⟨z, hz⟩, -, -⟩
  simp at hz

lemma Follows.bind {w w' : List Varspec} {x : Asking α} {f : α → Asking β}
    (hx : Follows lookup o w x) (hf : ∀ a, Follows lookup o w' (f a)) :
    Follows lookup o (w ++ w') (x >>= f) := by
  intro s
  obtain ⟨hok, herror⟩ := hx s
  constructor
  · intro h
    obtain ⟨hw, hw'⟩ := noneFails_append.mp h
    obtain ⟨a, ha⟩ := hok hw
    obtain ⟨b, hb⟩ := (hf a _).1 hw'
    exact ⟨b, by rw [after_bind_ok ha, hb]; simp⟩
  · intro u v e h
    rcases firstFails_append h with h | ⟨u', rfl, hw, h⟩
    · rw [after_bind_error (herror u v e h)]
    · obtain ⟨a, ha⟩ := hok hw
      rw [after_bind_ok ha, (hf a _).2 u' v e h]
      simp

lemma Follows.bind_pure {w : List Varspec} {x : Asking α} (h : Follows lookup o w x) (g : α → β) :
    Follows lookup o w (x >>= fun a => Pure.pure (g a)) := by
  have h := h.bind fun a => .pure (g a)
  rwa [List.append_nil] at h

lemma Follows.mapM {vars : α → List Varspec} {f : α → Asking β}
    (h : ∀ x, Follows lookup o (vars x) (f x)) (xs : List α) :
    Follows lookup o (xs.flatMap vars) (xs.mapM f) := by
  induction xs with
  | nil => exact .pure []
  | cons x xs ih =>
    rw [List.mapM_cons, List.flatMap_cons]
    exact (h x).bind fun y => ih.bind_pure fun ys => y :: ys

lemma follows_variableUnits (v : Varspec) :
    Follows lookup o [v] (variableUnits lookup o op v) := by
  intro s
  rw [after_variableUnits]
  constructor
  · rintro ⟨hv, -⟩
    rcases hx : (lookup s v.name).bind (unitsFor o op v) with e | us
    · exact absurd (fails_iff.mpr hx) (hv e)
    · exact ⟨us, rfl⟩
  · rintro u v' e ⟨⟨z, hz⟩, -, he⟩
    rcases u with _ | ⟨v'', u⟩
    · obtain ⟨rfl, -⟩ := List.cons.inj hz
      have he : Fails o v' (lookup s v'.name) e := he
      rw [fails_iff.mp he]
      rfl
    · simp at hz

/-- **Terms ask for the occurrences** of variables in them. -/
theorem follows_terms (lookup : Lookup) (o : Options) (ts : List Term) :
    Follows lookup o (ts.flatMap Term.vars) (terms lookup o ts) := by
  refine .bind_pure (.mapM (fun x => ?_) ts) List.flatten
  rcases x with t | ⟨op, vs⟩
  · exact .pure t
  · have hvs : Follows lookup o (vs.flatMap fun v => [v]) (vs.mapM (variableUnits lookup o op)) :=
      .mapM follows_variableUnits vs
    rw [List.flatMap_singleton'] at hvs
    exact hvs.bind_pure fun uss => op.assemble uss.flatten

/-- An expansion fails with the error of the first occurrence that fails. -/
lemma result_eq_error_iff {ts : List Term} {e : Error} :
    (run (terms lookup o ts)).result = .error e ↔
      ∃ u v, FirstFails lookup o [] (ts.flatMap Term.vars) u v e := by
  obtain ⟨hok, herror⟩ := follows_terms lookup o ts []
  constructor
  · intro h
    rw [run_eq] at h
    by_cases hw : NoneFails lookup o [] (ts.flatMap Term.vars)
    · obtain ⟨a, ha⟩ := hok hw
      rw [ha] at h
      cases h
    · obtain ⟨u, v, e', hv⟩ := exists_firstFails hw
      rw [herror u v e' hv] at h
      cases h
      exact ⟨u, v, hv⟩
  · rintro ⟨u, v, hv⟩
    rw [run_eq, herror u v e hv]

/-- Where nothing fails, all occurrences were asked for. -/
lemma asked_of_ok {ts : List Term} {t : Text} (h : (run (terms lookup o ts)).result = .ok t) :
    (run (terms lookup o ts)).asked = (ts.flatMap Term.vars).map Varspec.name := by
  by_cases hw : NoneFails lookup o [] (ts.flatMap Term.vars)
  · obtain ⟨a, ha⟩ := (follows_terms lookup o ts []).1 hw
    simp [run_eq, ha]
  · obtain ⟨u, v, e, hv⟩ := exists_firstFails hw
    rw [result_eq_error_iff.mpr ⟨u, v, hv⟩] at h
    cases h

/-! ### Missing variables -/

/-- Whatever the one computation gives, the other gives too. -/
def Within (x y : Asking α) : Prop := ∀ s s' a, after x s = (.ok a, s') → after y s = (.ok a, s')

lemma sequential_within : Sequential Within where
  pure a := fun s s' b h => h
  bind := by
    intro α β x y f g hx hf s s'' b h
    obtain ⟨a, s', ha, hb⟩ := after_bind_eq_ok.mp h
    exact after_bind_eq_ok.mpr ⟨a, s', hx s s' a ha, hf a s' s'' b hb⟩

lemma within_variableUnits (lookup : Lookup) (op : Operator) (v : Varspec) :
    Within (variableUnits lookup ⟨false⟩ op v) (variableUnits lookup ⟨true⟩ op v) := by
  intro s s' us h
  rw [after_variableUnits, Prod.mk.injEq] at h
  rw [after_variableUnits, Prod.mk.injEq]
  refine ⟨?_, h.2⟩
  rcases hx : lookup s v.name with e | x <;> rw [hx] at h
  · cases h.1
  · have hus : v.units op x = .ok us := unitsFor_eq_ok h.1
    rw [Except.bind, unitsFor_of_allows rfl, hus]

/-- **How an expansion ends**: with a text if no occurrence fails, after all of them were asked for;
otherwise with the error of the first one that fails, after those before it and itself were. A text
that comes where variables must not be missing comes where they may be, too. -/
theorem run_terms_outcome (lookup : Lookup) (o : Options) (ts : List Term) :
    let w := ts.flatMap Term.vars
    (NoneFails lookup o [] w → ∃ t, run (terms lookup o ts) = ⟨.ok t, w.map Varspec.name⟩) ∧
      (¬ NoneFails lookup o [] w → ∃ u v e, FirstFails lookup o [] w u v e) ∧
      (∀ u v e, FirstFails lookup o [] w u v e →
        run (terms lookup o ts) = ⟨.error e, (u ++ [v]).map Varspec.name⟩) ∧
      ∀ t, (run (terms lookup ⟨false⟩ ts)).result = .ok t →
        run (terms lookup ⟨true⟩ ts) = run (terms lookup ⟨false⟩ ts) := by
  intro w
  obtain ⟨hok, herror⟩ := follows_terms lookup o ts []
  refine ⟨fun h => ?_, exists_firstFails, fun u v e h => ?_, fun t h => ?_⟩
  · obtain ⟨t, ht⟩ := hok h
    exact ⟨t, by simp [run_eq, ht, w]⟩
  · simp [run_eq, herror u v e h]
  · have hwithin : Within (terms lookup ⟨false⟩ ts) (terms lookup ⟨true⟩ ts) :=
      sequential_within.terms fun op v _ => within_variableUnits lookup op v
    have hstrict : after (terms lookup ⟨false⟩ ts) [] =
        (.ok t, (after (terms lookup ⟨false⟩ ts) []).2) := Prod.ext h rfl
    rw [run_eq, run_eq, hwithin _ _ _ hstrict, hstrict]

/-- A list that would have to be cut ends an expansion before a variable that is missing does. -/
example :
    let a : Varspec := ⟨lit "a", lit "a", .cut ⟨3, by decide⟩⟩
    let b : Varspec := ⟨lit "b", lit "b", .whole⟩
    let lookup : Lookup := fun _ n => .ok (if n = lit "a" then .list [] else .undefined)
    run (terms lookup ⟨false⟩ [.expression .label [a], .expression .simple [b]]) =
      ⟨.error (.modifierConflict (lit "a") (lit "list")), [lit "a"]⟩ := by
  rfl

end UriTemplate.Expansion

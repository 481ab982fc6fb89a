import UriTemplate.Proofs.Failure
import UriTemplate.Proofs.Splitting
import UriTemplate.Template

/-!
Variables that cannot be seen. An undefined variable has no units, and neither has an empty list or
map, unless it would have to be cut, which is an error. Without the variables that have none an
expression gives what it gave with them, as long as nobody remembers that they were asked for; and
where lists or maps without members become undefined, nothing that succeeded can tell.
-/

namespace UriTemplate

/-! ### What is empty -/

/-- A variable is invisible for what it is answered with: it is undefined, or it is empty and not to
be cut. What fails can be seen. -/
def Varspec.isInvisible (v : Varspec) : Except Error Value → Bool
  | .ok x => decide (x = .undefined) || (x.isEmpty && v.modifier.cut?.isNone)
  | .error _ => false

/-- Reading anew what was empty finds nothing again. -/
lemma Datum.toValue_again {d : Datum} {x : Value} (h : d.toValue false = .ok x)
    (hx : x.isEmpty = true) : d.toValue true = .ok x := by
  cases d with
  | stream ds =>
    have hitems : itemTexts ds = [] := by
      cases h
      exact List.isEmpty_iff.mp hx
    rw [← h]
    simp [toValue, hitems]
  | _ => exact h

namespace Expansion

variable {lookup : Lookup} {o : Options} {op : Operator}

lemma isEmpty_of_isInvisible {v : Varspec} {x : Value} (h : v.isInvisible (.ok x) = true) :
    x.isEmpty = true := by
  rcases Bool.or_eq_true_iff.mp h with hx | hx
  · rw [of_decide_eq_true hx]
    rfl
  · exact (Bool.and_eq_true_iff.mp hx).1

/-- What is empty has no units, or cannot be written. -/
lemma eq_nil_of_isEmpty {v : Varspec} {x : Value} (h : x.isEmpty = true) {us : List Text}
    (hus : v.units op x = .ok us) : us = [] := by
  obtain ⟨n, d, m⟩ := v
  rcases x with _ | t | ts | es
  · cases hus
    rfl
  · cases h
  · obtain rfl := List.isEmpty_iff.mp h
    rcases m with _ | k | _ <;> cases hus <;> rfl
  · obtain rfl := List.isEmpty_iff.mp h
    rcases m with _ | k | _ <;> cases hus <;> rfl

/-- Whatever is not to be cut can be written. -/
lemma exists_units {v : Varspec} (h : v.modifier.cut? = none) (x : Value) :
    ∃ us, v.units op x = .ok us := by
  obtain ⟨n, d, m⟩ := v
  rcases m with _ | k | _
  · cases x <;> exact ⟨_, rfl⟩
  · cases h
  · cases x <;> exact ⟨_, rfl⟩

lemma unitsFor_of_isInvisible (ho : o.allowsUndefined = true) {v : Varspec} {x : Value}
    (h : v.isInvisible (.ok x) = true) : unitsFor o op v x = .ok [] := by
  have hwritten : ∃ us, v.units op x = .ok us := by
    rcases Bool.or_eq_true_iff.mp h with hx | hx
    · rw [of_decide_eq_true hx]
      exact ⟨_, rfl⟩
    · exact exists_units (Option.isNone_iff_eq_none.mp (Bool.and_eq_true_iff.mp hx).2) x
  obtain ⟨us, hus⟩ := hwritten
  rw [unitsFor_of_allows ho, hus, eq_nil_of_isEmpty (isEmpty_of_isInvisible h) hus]

/-! ### What is left -/

/-- The variables of an expression without the invisible ones, each answered as in all of it. -/
def visible (lookup : Lookup) : List Name → List Varspec → List Varspec
  | _, [] => []
  | asked, v :: vs =>
    if v.isInvisible (lookup asked v.name) then visible lookup (v.name :: asked) vs
    else v :: visible lookup (v.name :: asked) vs

/-- A lookup does not tell one past from another: whatever is asked for since, it answers alike. -/
def Lookup.Forgets (lookup : Lookup) (past past' : List Name) : Prop :=
  ∀ since n, lookup (since ++ past) n = lookup (since ++ past') n

/-- A name whose value was empty might as well not have been asked for. -/
def Lookup.Traceless (lookup : Lookup) : Prop :=
  ∀ past n x, lookup past n = .ok x → x.isEmpty = true → lookup.Forgets (n :: past) past

lemma Lookup.Forgets.cons {s s' : List Name} (h : lookup.Forgets s s') (n : Name) :
    lookup.Forgets (n :: s) (n :: s') := by
  intro since m
  have hsince := h (since ++ [n]) m
  rwa [List.append_assoc, List.append_assoc] at hsince

/-- Where the answers are those of a function, what is left is a matter of each answer alone. -/
lemma visible_function (f : Name → Except Error Value) (asked : List Name) (vs : List Varspec) :
    visible (fun _ => f) asked vs = vs.filter fun v => !v.isInvisible (f v.name) := by
  induction vs generalizing asked with
  | nil => rfl
  | cons v vs ih =>
    rw [visible, ih]
    cases h : v.isInvisible (f v.name) <;> simp [h]

/-- Of a mapping or a function it can be told only whether a name is asked for anew, and the values
that do not last were not empty. -/
lemma traceless_lookupData (f : Name → Datum) : (Bindings.lookupData f).Traceless := by
  intro past n x hx hempty since m
  unfold Bindings.lookupData at hx ⊢
  have hcontains : (since ++ n :: past).contains m = ((since ++ past).contains m || m == n) := by
    rw [List.contains_append, List.contains_append, List.contains_cons, Bool.or_assoc,
      Bool.or_comm (m == n)]
  rw [hcontains]
  rcases hanew : (since ++ past).contains m
  · rcases hm : m == n
    · rfl
    · obtain rfl := eq_of_beq hm
      rw [List.contains_append, Bool.or_eq_false_iff] at hanew
      rw [hanew.2] at hx
      rw [hx]
      exact Datum.toValue_again hx hempty
  · rfl

/-- Whatever a template can be expanded with leaves no trace of empty values. -/
theorem traceless_of_lookup {b : Bindings} (h : b.lookup = .ok lookup) : lookup.Traceless := by
  rcases b with d | vs | f
  · cases d with
    | null =>
      cases h
      exact fun _ _ _ _ _ _ _ => rfl
    | map es =>
      cases h
      exact traceless_lookupData _
    | _ => cases h
  · cases h
    exact fun _ _ _ _ _ _ _ => rfl
  · cases h
    exact traceless_lookupData f

/-- **What cannot be seen** can be left out. -/
theorem contribution_visible (hl : lookup.Traceless) (ho : o.allowsUndefined = true)
    {s s' : List Name} (h : lookup.Forgets s s') (vs : List Varspec) :
    (after (contribution lookup o op (visible lookup s vs)) s').1 =
      (after (contribution lookup o op vs) s).1 := by
  induction vs generalizing s s' with
  | nil => rfl
  | cons v vs ih =>
    rw [visible, after_contribution_cons]
    split_ifs with hv
    · -- the answer is not asked for, and what follows does not miss it
      rcases hx : lookup s v.name with e | x
      · rw [hx] at hv
        cases hv
      · rw [hx] at hv
        have hforgets : lookup.Forgets (v.name :: s) s' := by
          intro since n
          rw [hl s v.name x hx (isEmpty_of_isInvisible hv), h]
        rw [ih hforgets, Except.bind, unitsFor_of_isInvisible ho hv]
        rcases (after (contribution lookup o op vs) (v.name :: s)).1 with e | us <;> rfl
    · have hsame : lookup s' v.name = lookup s v.name := (h [] v.name).symm
      rw [after_contribution_cons, hsame, ih (h.cons v.name)]

lemma result_visible (hl : lookup.Traceless) (ho : o.allowsUndefined = true) (vs : List Varspec) :
    (run (expression lookup o op vs)).result =
      (run (expression lookup o op (visible lookup [] vs))).result := by
  rw [result_expression, result_expression, contribution_visible hl ho fun _ _ => rfl]

/-! ### Empty values that become undefined -/

/-- The second lookup answers as the first one does, but that some lists and maps without members
are undefined. -/
def Lookup.Loses (lookup lookup' : Lookup) : Prop :=
  ∀ asked n, lookup' asked n = lookup asked n ∨ lookup' asked n = .ok .undefined ∧
    (lookup asked n = .ok (.list []) ∨ lookup asked n = .ok (.map []))

lemma within_of_loses {lookup' : Lookup} (h : lookup.Loses lookup')
    (ho : o.allowsUndefined = true) (v : Varspec) :
    Within (variableUnits lookup o op v) (variableUnits lookup' o op v) := by
  intro s s' us hus
  rw [after_variableUnits, Prod.mk.injEq] at hus ⊢
  refine ⟨?_, hus.2⟩
  rcases h s v.name with hsame | ⟨hundefined, hempty⟩
  · rw [hsame, hus.1]
  · have hnil : us = [] := by
      rcases hempty with hx | hx <;> rw [hx, Except.bind, unitsFor_of_allows ho] at hus <;>
        exact eq_nil_of_isEmpty rfl hus.1
    rw [hundefined, Except.bind, unitsFor_of_allows ho, hnil]
    rfl

/-- What succeeded still does, and asks for the same. -/
theorem run_terms_of_loses {lookup' : Lookup} (h : lookup.Loses lookup')
    (ho : o.allowsUndefined = true) {ts : List Term} {t : Text}
    (ht : (run (terms lookup o ts)).result = .ok t) :
    run (terms lookup' o ts) = run (terms lookup o ts) := by
  have hwithin : Within (terms lookup o ts) (terms lookup' o ts) :=
    sequential_within.terms fun op v _ => within_of_loses h ho v
  have hbefore : after (terms lookup o ts) [] = (.ok t, (after (terms lookup o ts) []).2) :=
    Prod.ext ht rfl
  rw [run_eq, run_eq, hwithin _ _ _ hbefore, hbefore]

/-- **Undefined variables cannot be seen.** Where variables may be missing, and empty values leave
no trace in what a lookup answers, an expression without its invisible variables ends as it did
before, with the same text or the same error; if none is left, nothing is written, not even what
leads. No function of the name has a memory that could keep a trace, and whatever a template can be
expanded with keeps none. If lists and maps without members become undefined, then what succeeded
still does, with the same text. -/
theorem undefined_invisible {o : Options} (ho : o.allowsUndefined = true) :
    (∀ lookup : Lookup, lookup.Traceless → ∀ op vs,
      (run (expression lookup o op vs)).result =
        (run (expression lookup o op (visible lookup [] vs))).result ∧
      (visible lookup [] vs = [] → (run (expression lookup o op vs)).result = .ok [])) ∧
    (∀ f : Name → Except Error Value, Lookup.Traceless (fun _ => f) ∧
      ∀ vs, visible (fun _ => f) [] vs = vs.filter fun v => !v.isInvisible (f v.name)) ∧
    (∀ (b : Bindings) lookup, b.lookup = .ok lookup → lookup.Traceless) ∧
    ∀ lookup lookup' : Lookup, lookup.Loses lookup' → ∀ ts t,
      (run (terms lookup o ts)).result = .ok t →
        run (terms lookup' o ts) = run (terms lookup o ts) := by
  refine ⟨fun lookup hl op vs => ⟨result_visible hl ho vs, fun hnone => ?_⟩,
    fun f => ⟨fun _ _ _ _ _ _ _ => rfl, visible_function f []⟩,
    fun b lookup => traceless_of_lookup, fun lookup lookup' h ts t => run_terms_of_loses h ho⟩
  rw [result_visible hl ho, hnone]
  rfl

/-- A stream of null alone, an empty text between its occurrences, and a list that becomes
undefined. -/
theorem undefined_invisible_stream :
    let a : Varspec := ⟨lit "a", lit "a", .whole⟩
    let b : Varspec := ⟨lit "b", lit "b", .explode⟩
    let es : List (Datum × Datum) := [(.text (lit "a"), .stream [.null]), (.text (lit "b"), .text [])]
    let lookup : Lookup := Bindings.lookupData (Bindings.entryOf es)
    let f : Lookup := fun _ n => .ok (if n = lit "a" then .list [] else .scalar [])
    let g : Lookup := fun _ n => .ok (if n = lit "a" then .undefined else .scalar [])
    ({} : Options).allowsUndefined = true ∧ lookup.Traceless ∧
      visible lookup [] [a, b, a] = [b] ∧
      (run (expression lookup {} .queryForm [a, b, a])).result = .ok (lit "?b=") ∧
      visible lookup [] [a] = [] ∧ (run (expression lookup {} .fragment [a])).result = .ok [] ∧
      f.Loses g ∧ run (terms g {} [.expression .label [a, b]]) =
        ⟨.ok (lit "."), [lit "a", lit "b"]⟩ := by
  intro a b es lookup f g
  obtain ⟨hdelete, -, htraceless, hloses⟩ := undefined_invisible (o := {}) rfl
  have hlookup : lookup.Traceless := htraceless (.datum (.map es)) lookup rfl
  have hfg : f.Loses g := by
    intro asked n
    by_cases hn : n = lit "a"
    · exact .inr ⟨by simp [g, hn], .inl (by simp [f, hn])⟩
    · exact .inl (by simp [f, g, hn])
  refine ⟨rfl, hlookup, rfl, ?_, rfl, (hdelete lookup hlookup .fragment [a]).2 rfl, hfg, ?_⟩
  · exact (hdelete lookup hlookup .queryForm [a, b, a]).1.trans rfl
  · exact (hloses f g hfg [.expression .label [a, b]] (lit ".") rfl).trans rfl

end Expansion

end UriTemplate

import UriTemplate.Proofs.Splitting

/-!
Variables that explode. A text has one unit, whether its variable explodes or not. A list whose
variable explodes has a unit for each member, which is what as many variables of the same name would
contribute for the members as texts. If the variable does not explode, the members share one unit
with commas between them, and this makes no difference to an operator that shows no names and
delimits with a comma itself.
-/

namespace UriTemplate

/-! ### Units for other units -/

/-- Units in one text, with a separator between them, are as good as apart. -/
lemma intercalate_joined {sep : Text} {us : List Text} (h : us ≠ []) (as bs : List Text) :
    sep.intercalate (as ++ (us ++ bs)) =
      sep.intercalate (as ++ (sep.intercalate us :: bs)) := by
  have hfront : sep.intercalate (us ++ bs) = sep.intercalate (sep.intercalate us :: bs) := by
    rcases bs with _ | ⟨b, bs⟩
    · rw [List.append_nil, List.intercalate_singleton]
    · rw [intercalate_append h (by simp), List.intercalate_cons_cons]
  have hne : us ++ bs ≠ [] := List.append_ne_nil_of_left_ne_nil h bs
  rcases as with _ | ⟨a, as⟩
  · exact hfront
  · have ha : a :: as ≠ [] := List.cons_ne_nil a as
    rw [intercalate_append ha hne, intercalate_append ha (List.cons_ne_nil _ _), hfront]

namespace Operator

/-- Some units can stand for others, whatever stands before and after them. -/
def Interchangeable (op : Operator) (us vs : List Text) : Prop :=
  ∀ as bs, op.assemble (as ++ (us ++ bs)) = op.assemble (as ++ (vs ++ bs))

lemma Interchangeable.refl (op : Operator) (us : List Text) : op.Interchangeable us us :=
  fun _ _ => rfl

/-- **Units with the delimiter between them** are as good as one unit. -/
theorem interchangeable_joined (op : Operator) {us : List Text} (h : us ≠ []) :
    op.Interchangeable us [op.style.delimiter.intercalate us] := by
  intro as bs
  rw [assemble_of_ne_nil op (by simp [h]), assemble_of_ne_nil op (by simp),
    intercalate_joined h]
  rfl

end Operator

namespace Varspec

lemma unit_of_bare {op : Operator} (h : op.style.joining = .bare) (name value : Text) :
    unit op name value = op.encodeValue value := by
  rw [unit, Operator.join, h]
  rfl

/-- **A list of which names are not shown** has units that can stand for each other, if the
operator delimits with a comma. -/
theorem interchangeable_list {op : Operator} (hbare : op.style.joining = .bare)
    (hcomma : op.style.delimiter = lit ",") (n d : Text) (ts : List Text) :
    ∃ us vs, units op ⟨n, d, .explode⟩ (.list ts) = .ok us ∧
      units op ⟨n, d, .whole⟩ (.list ts) = .ok vs ∧ op.Interchangeable us vs := by
  refine ⟨_, _, rfl, rfl, ?_⟩
  have hunits : ts.map (unit op d) = ts.map op.encodeValue :=
    List.map_congr_left fun t _ => unit_of_bare hbare d t
  rw [hunits]
  split_ifs with h
  · rw [List.isEmpty_iff.mp h]
    exact .refl op []
  · have hne : ts.map op.encodeValue ≠ [] := by simpa using h
    have hshared : op.join false (op.encodeName d) (commaJoined op ts) =
        op.style.delimiter.intercalate (ts.map op.encodeValue) := by
      rw [Operator.join, hbare, hcomma]
      rfl
    rw [hshared]
    exact op.interchangeable_joined hne

end Varspec

namespace Expansion

variable {lookup : Lookup} {o : Options} {op : Operator}

/-- By the time that some variables have contributed, they have been asked for. -/
lemma after_contribution_ok {us : List Varspec} {s s' : List Name} {as : List Text}
    (h : after (contribution lookup o op us) s = (.ok as, s')) :
    s' = (us.map Varspec.name).reverse ++ s := by
  obtain ⟨uss, s₁, huss, h⟩ := after_bind_eq_ok.mp h
  obtain ⟨ps, -, -, -, rfl⟩ := after_variables.mp huss
  rw [after_pure] at h
  exact (Prod.mk.inj h).2.symm

/-- **One variable for another** of the same name: if what they contribute can stand for each other,
nothing else tells them apart. -/
theorem run_interchange {us ws : List Varspec} {v w : Varspec} (hname : v.name = w.name)
    {x : Value} (hx : lookup (us.map Varspec.name).reverse v.name = .ok x) {as bs : List Text}
    (hv : unitsFor o op v x = .ok as) (hw : unitsFor o op w x = .ok bs)
    (h : op.Interchangeable as bs) :
    run (expression lookup o op (us ++ v :: ws)) = run (expression lookup o op (us ++ w :: ws)) := by
  simp only [run_eq, expression_eq, contribution_append, contribution_cons, bind_assoc, pure_bind]
  rcases hus : after (contribution lookup o op us) [] with ⟨e | fs, s⟩
  · rw [after_bind_error hus, after_bind_error hus]
  · obtain rfl := after_contribution_ok hus
    rw [List.append_nil] at hus
    have hafter : after (variableUnits lookup o op v) (us.map Varspec.name).reverse =
        (.ok as, v.name :: (us.map Varspec.name).reverse) := by
      rw [after_variableUnits, hx, Except.bind, hv]
    have hafter' : after (variableUnits lookup o op w) (us.map Varspec.name).reverse =
        (.ok bs, v.name :: (us.map Varspec.name).reverse) := by
      rw [after_variableUnits, ← hname, hx, Except.bind, hw]
    rw [after_bind_ok hus, after_bind_ok hus, after_bind_ok hafter, after_bind_ok hafter']
    simp only [h fs]

/-! ### Lists and texts that explode -/

/-- Some variables of the same name, answered with texts in turn, contribute a unit for each. -/
lemma contribution_scalars {v : Varspec} (hv : v.modifier.cut? = none) {ts : List Text}
    {s : List Name} (h : Answers lookup s (ts.map fun t => (v, .scalar t))) :
    (after (contribution lookup o op (List.replicate ts.length v)) s).1 =
      .ok (ts.map (Varspec.unit op v.decoded)) := by
  have hunits : ∀ t, unitsFor o op v (.scalar t) = .ok [Varspec.unit op v.decoded t] := by
    intro t
    rw [unitsFor_of_ne (by simp), Varspec.units_scalar]
    rcases v with ⟨n, d, _ | m | _⟩
    · rfl
    · cases hv
    · rfl
  induction ts generalizing s with
  | nil => rfl
  | cons t ts ih =>
    have hrest := ih h.2
    rw [List.length_cons, List.replicate_succ, after_contribution_cons, h.1, Except.bind, hunits,
      Except.bind, hrest]
    rfl

/-- **Exploding.** Where the value is a text, an expression does not depend on whether the variable
explodes; where it is a list, it does not either, if the operator is the simple or the reserved one
or that of fragments. A list contributes, whatever the operator, what as many variables of the same
name would contribute, if they were answered with the members as texts. -/
theorem explode_expression (lookup : Lookup) (o : Options) (op : Operator) (us ws : List Varspec)
    (n : Name) (d : Text) :
    (∀ t, lookup (us.map Varspec.name).reverse n = .ok (.scalar t) →
      run (expression lookup o op (us ++ ⟨n, d, .explode⟩ :: ws)) =
        run (expression lookup o op (us ++ ⟨n, d, .whole⟩ :: ws))) ∧
    (∀ ts past past' lookup', lookup past n = .ok (.list ts) →
      Answers lookup' past' (ts.map fun t => (⟨n, d, .whole⟩, .scalar t)) →
      ∃ units, (after (contribution lookup o op [⟨n, d, .explode⟩]) past).1 = .ok units ∧
        (after (contribution lookup' o op (List.replicate ts.length ⟨n, d, .whole⟩)) past').1 =
          .ok units) ∧
    (op ∈ [Operator.simple, .reserved, .fragment] →
      ∀ ts, lookup (us.map Varspec.name).reverse n = .ok (.list ts) →
        run (expression lookup o op (us ++ ⟨n, d, .explode⟩ :: ws)) =
          run (expression lookup o op (us ++ ⟨n, d, .whole⟩ :: ws))) := by
  refine ⟨fun t ht => ?_, fun ts past past' lookup' hlist hscalars => ?_, fun hop ts hts => ?_⟩
  · exact run_interchange rfl ht (unitsFor_of_ne (by simp) _) (unitsFor_of_ne (by simp) _) (.refl op _)
  · refine ⟨_, ?_, contribution_scalars rfl hscalars⟩
    rw [after_contribution_cons, hlist, Except.bind, unitsFor_of_ne (by simp), contribution_nil,
      after_pure, ← List.append_nil (ts.map _)]
    rfl
  · have hstyle : op.style.joining = .bare ∧ op.style.delimiter = lit "," := by
      revert op
      decide
    obtain ⟨as, bs, has, hbs, h⟩ := Varspec.interchangeable_list hstyle.1 hstyle.2 n d ts
    rw [← unitsFor_of_ne (by simp)] at has hbs
    exact run_interchange rfl hts has hbs h

/-- A list with an empty member, between texts that are empty. -/
theorem explode_expression_fragment :
    let y : Varspec := ⟨lit "y", lit "y", .whole⟩
    let ts : List Text := [[], lit "a"]
    let lookup : Lookup := fun _ n => .ok (if n = lit "x" then .list ts else .scalar [])
    let lookup' : Lookup := fun asked _ => .ok (.scalar (if asked = [] then [] else lit "a"))
    lookup [lit "y"] (lit "x") = .ok (.list ts) ∧
      run (expression lookup {} .fragment [y, ⟨lit "x", lit "x", .explode⟩, y]) =
        ⟨.ok (lit "#,,a,"), [lit "y", lit "x", lit "y"]⟩ ∧
      lookup [lit "x"] (lit "y") = .ok (.scalar []) ∧
      run (expression lookup {} .pathParam [⟨lit "x", lit "x", .cut ⟨1, by decide⟩⟩,
        ⟨lit "y", lit "y", .explode⟩]) =
        ⟨.error (.modifierConflict (lit "x") (lit "list")), [lit "x"]⟩ ∧
      Answers lookup' [] (ts.map fun t => (⟨lit "x", lit "x", .whole⟩, .scalar t)) ∧
      ∃ units, (after (contribution lookup {} .fragment [⟨lit "x", lit "x", .explode⟩]) []).1 =
          .ok units ∧
        (after (contribution lookup' {} .fragment
          (List.replicate 2 ⟨lit "x", lit "x", .whole⟩)) []).1 = .ok units := by
  intro y ts lookup lookup'
  have hanswers : Answers lookup' [] (ts.map fun t => (⟨lit "x", lit "x", .whole⟩, .scalar t)) :=
    ⟨rfl, rfl, trivial⟩
  obtain ⟨-, hmembers, hlist⟩ :=
    explode_expression lookup {} .fragment [y] [y] (lit "x") (lit "x")
  obtain ⟨hscalar, -⟩ := explode_expression lookup {} .pathParam
    [⟨lit "x", lit "x", .cut ⟨1, by decide⟩⟩] [] (lit "y") (lit "y")
  refine ⟨rfl, ?_, rfl, ?_, hanswers, hmembers ts [] [] lookup' rfl hanswers⟩
  · exact (hlist (by decide) ts rfl).trans rfl
  · exact (hscalar [] rfl).trans rfl

end Expansion

end UriTemplate

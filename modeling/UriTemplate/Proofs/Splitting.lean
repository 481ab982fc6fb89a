import UriTemplate.Proofs.Evaluation
import UriTemplate.Proofs.Units

/-!
Expressions in two parts. An expression is put together from the units that its variables
contribute, and where the variables are cut in two, the first part contributes its units before the
second one does. What has to stand between the texts of the parts depends on the units of both, not
on the texts: a unit can be empty, and then it still calls for a leader and for a delimiter.
-/

namespace UriTemplate

/-! ### Operators side by side -/

namespace Operator

/-- Units are the same with the one operator and with the other: the two differ at most in what
selects them, what leads and what delimits. -/
structure WritesLike (a b : Operator) : Prop where
  joining : a.style.joining = b.style.joining
  allowed : a.style.allowed = b.style.allowed
  keepsTriplets : a.style.keepsTriplets = b.style.keepsTriplets

lemma WritesLike.units_eq {a b : Operator} (h : WritesLike a b) (v : Varspec) (x : Value) :
    v.units a x = v.units b x := by
  have hjoin : a.join = b.join := by
    funext entry name value
    rw [join, join, h.joining]
  have hvalue : a.encodeValue = b.encodeValue := by
    funext value
    rw [encodeValue, encodeValue, h.allowed, h.keepsTriplets]
  have hname : a.encodeName = b.encodeName := rfl
  have hunit : Varspec.unit a = Varspec.unit b := by
    funext name value
    rw [Varspec.unit, Varspec.unit, hjoin, hvalue, hname]
  have hentry : Varspec.entryUnit a = Varspec.entryUnit b := by
    funext e
    rw [Varspec.entryUnit, Varspec.entryUnit, hjoin, hvalue, hname]
  have hcommas : Varspec.commaJoined a = Varspec.commaJoined b := by
    funext ts
    rw [Varspec.commaJoined, Varspec.commaJoined, hvalue]
  unfold Varspec.units
  rw [hjoin, hname, hunit, hentry, hcommas]

/-- After some units with the one operator, the other one goes on as the first would have: it leads
with what comes next. -/
structure Continues (a : Operator) (units : List Text) (b : Operator) : Prop where
  like : WritesLike a b
  leader : b.style.leader = if units = [] then a.style.leader else a.style.delimiter
  delimiter : b.style.delimiter = a.style.delimiter

/-- An operator whose leader is its delimiter goes on by itself. -/
lemma continues_self {op : Operator} (h : op.style.leader = op.style.delimiter)
    (units : List Text) : op.Continues units op where
  like := ⟨rfl, rfl, rfl⟩
  leader := by rw [h, ite_self]
  delimiter := rfl

/-- The operator by which a query goes on, by the text that has come of it. -/
def afterQuery (t : Text) : Operator := if t = [] then .queryForm else .queryContinuation

/-- **Units in two parts**: those of the second part are put together by themselves. -/
theorem assemble_continues {a b : Operator} {us : List Text} (h : a.Continues us b)
    (vs : List Text) : a.assemble (us ++ vs) = a.assemble us ++ b.assemble vs := by
  by_cases hv : vs = []
  · rw [hv, List.append_nil, assemble_nil, List.append_nil]
  · rw [assemble_append a us hv, assemble_of_ne_nil b hv, h.leader, h.delimiter]
    simp

/-- With a leader there is no text only if there are no units. -/
lemma assemble_eq_nil {op : Operator} (h : op.style.leader ≠ []) {us : List Text} :
    op.assemble us = [] ↔ us = [] := by
  constructor
  · intro hus
    by_contra hne
    rw [assemble_of_ne_nil op hne] at hus
    exact h (List.append_eq_nil_iff.mp hus).1
  · rintro rfl
    exact assemble_nil op

lemma continues_afterQuery (units : List Text) :
    queryForm.Continues units (afterQuery (queryForm.assemble units)) := by
  have hempty : queryForm.assemble units = [] ↔ units = [] := assemble_eq_nil (by decide)
  unfold afterQuery
  split_ifs with h <;> rw [hempty] at h
  · exact ⟨⟨rfl, rfl, rfl⟩, (if_pos h).symm, rfl⟩
  · exact ⟨⟨rfl, rfl, rfl⟩, (if_neg h).symm, rfl⟩

/-- Without a leader what stands between the parts is a delimiter, if both have units. -/
lemma assemble_append_unled {op : Operator} (h : op.style.leader = []) (us vs : List Text) :
    op.assemble (us ++ vs) = if us = [] then op.assemble vs else if vs = [] then op.assemble us
      else op.assemble us ++ op.style.delimiter ++ op.assemble vs := by
  split_ifs with hu hv
  · rw [hu, List.nil_append]
  · rw [hv, List.append_nil]
  · rw [assemble_append op us hv, assemble_of_ne_nil op hv, h]
    simp [hu]

lemma assemble_fragment (us : List Text) :
    fragment.assemble us = if us = [] then [] else .ofChar '#' :: reserved.assemble us := by
  split_ifs with h
  · rw [h, assemble_nil]
  · rw [assemble_of_ne_nil _ h, assemble_of_ne_nil _ h]
    rfl

end Operator

namespace Expansion

variable {lookup : Lookup} {o : Options} {op : Operator}

/-! ### What variables contribute -/

/-- The units that some variables contribute together. -/
def contribution (lookup : Lookup) (o : Options) (op : Operator) (vars : List Varspec) :
    Asking (List Text) := do
  let units ← vars.mapM (variableUnits lookup o op)
  pure units.flatten

/-- The text of an expression together with the units that its variables contribute. -/
def expressionWithUnits (lookup : Lookup) (o : Options) (op : Operator) (vars : List Varspec) :
    Asking (Text × List Text) := do
  let units ← contribution lookup o op vars
  pure (op.assemble units, units)

lemma expression_eq (vars : List Varspec) : expression lookup o op vars = (do
    let units ← contribution lookup o op vars
    pure (op.assemble units)) := by
  simp only [expression, contribution, bind_assoc, pure_bind]

/-- **Variables in a row** contribute in a row. -/
theorem contribution_append (us vs : List Varspec) : contribution lookup o op (us ++ vs) = (do
    let as ← contribution lookup o op us
    let bs ← contribution lookup o op vs
    pure (as ++ bs)) := by
  simp only [contribution, List.mapM_append, bind_assoc, pure_bind, List.flatten_append]

lemma contribution_nil : contribution lookup o op [] = pure [] := by
  simp [contribution]

lemma contribution_cons (v : Varspec) (vs : List Varspec) :
    contribution lookup o op (v :: vs) = (do
      let as ← variableUnits lookup o op v
      let bs ← contribution lookup o op vs
      pure (as ++ bs)) := by
  simp only [contribution, List.mapM_cons, bind_assoc, pure_bind, List.flatten_cons]

/-- The first variable contributes what it has for its answer, or it ends all with an error. -/
lemma after_contribution_cons (v : Varspec) (vs : List Varspec) (s : List Name) :
    (after (contribution lookup o op (v :: vs)) s).1 =
      ((lookup s v.name).bind (unitsFor o op v)).bind fun as =>
        (after (contribution lookup o op vs) (v.name :: s)).1.map (as ++ ·) := by
  rw [contribution_cons]
  rcases h : (lookup s v.name).bind (unitsFor o op v) with e | as
  · rw [after_bind_error (by rw [after_variableUnits, h])]
    rfl
  · rw [after_bind_ok (by rw [after_variableUnits, h])]
    rcases hvs : after (contribution lookup o op vs) (v.name :: s) with ⟨e | bs, s'⟩
    · rw [after_bind_error hvs]
      rfl
    · rw [after_bind_ok hvs, after_pure]
      rfl

/-- What an expression gives is put together from what its variables contribute. -/
lemma result_expression (vars : List Varspec) : (run (expression lookup o op vars)).result =
    (after (contribution lookup o op vars) []).1.map op.assemble := by
  rw [run_eq, expression_eq]
  rcases h : after (contribution lookup o op vars) [] with ⟨e | us, s⟩
  · rw [after_bind_error h]
    rfl
  · rw [after_bind_ok h, after_pure]
    rfl

lemma contribution_congr {a b : Operator} (h : a.WritesLike b) (vars : List Varspec) :
    contribution lookup o a vars = contribution lookup o b vars := by
  have hvariable : variableUnits lookup o a = variableUnits lookup o b := by
    funext v
    simp only [variableUnits, h.units_eq]
  rw [contribution, contribution, hvariable]

/-! ### Expressions in two parts -/

/-- The second part is an expression of its own, with an operator that goes on after the units of
the first. -/
lemma expression_continues {b : List Text → Operator} (h : ∀ as, op.Continues as (b as))
    (us vs : List Varspec) : expression lookup o op (us ++ vs) = (do
      let as ← contribution lookup o op us
      let u ← expression lookup o (b as) vs
      pure (op.assemble as ++ u)) := by
  simp only [expression_eq, contribution_append, bind_assoc, pure_bind]
  refine bind_congr fun as => ?_
  rw [← contribution_congr (h as).like]
  refine bind_congr fun bs => ?_
  rw [Operator.assemble_continues (h as)]

/-- **An expression in two parts.** Where the leader is the delimiter, the texts of the parts follow
each other. The form of a query goes on as its continuation, unless nothing has come of it. A
fragment is the reserved expression behind its leader, if there is a unit at all. Where nothing
leads, a comma stands between parts that both have units. What is asked for and what fails does so
in the order of the parts. -/
theorem expression_append (lookup : Lookup) (o : Options) (us vs : List Varspec) :
    (∀ op ∈ [Operator.label, .pathSegment, .pathParam, .queryContinuation],
      expression lookup o op (us ++ vs) = (do
        let t ← expression lookup o op us
        let u ← expression lookup o op vs
        pure (t ++ u))) ∧
      expression lookup o .queryForm (us ++ vs) = (do
        let t ← expression lookup o .queryForm us
        let u ← expression lookup o (if t = [] then .queryForm else .queryContinuation) vs
        pure (t ++ u)) ∧
      expression lookup o .fragment us = (do
        let (t, units) ← expressionWithUnits lookup o .reserved us
        pure (if units = [] then [] else .ofChar '#' :: t)) ∧
      (∀ op ∈ [Operator.simple, .reserved], expression lookup o op (us ++ vs) = (do
        let (t, as) ← expressionWithUnits lookup o op us
        let (u, bs) ← expressionWithUnits lookup o op vs
        pure (if as = [] then u else if bs = [] then t else t ++ lit "," ++ u))) ∧
      (∀ op, expression lookup o op us = Prod.fst <$> expressionWithUnits lookup o op us) ∧
      Prod.snd <$> expressionWithUnits lookup o .fragment us =
        Prod.snd <$> expressionWithUnits lookup o .reserved us := by
  have hlike : Operator.fragment.WritesLike .reserved := ⟨rfl, rfl, rfl⟩
  refine ⟨fun op hop => ?_, ?_, ?_, fun op hop => ?_, fun op => ?_, ?_⟩
  · have hleader : op.style.leader = op.style.delimiter := by
      revert op
      decide
    rw [expression_continues (Operator.continues_self hleader), expression_eq us]
    simp only [bind_assoc, pure_bind]
  · rw [expression_continues Operator.continues_afterQuery, expression_eq us]
    simp only [bind_assoc, pure_bind, Operator.afterQuery]
  · simp only [expression_eq, expressionWithUnits, contribution_congr hlike, bind_assoc, pure_bind,
      Operator.assemble_fragment]
  · have hstyle : op.style.leader = [] ∧ op.style.delimiter = lit "," := by
      revert op
      decide
    simp only [expression_eq, expressionWithUnits, contribution_append, bind_assoc, pure_bind,
      Operator.assemble_append_unled hstyle.1, hstyle.2]
  · simp [expressionWithUnits, expression_eq]
  · simp [expressionWithUnits, contribution_congr hlike]

/-- Two texts that are empty, with a unit each. -/
theorem expression_append_empty :
    let x : Varspec := ⟨lit "x", lit "x", .whole⟩
    let lookup : Lookup := fun _ _ => .ok (.scalar [])
    Operator.label ∈ [Operator.label, .pathSegment, .pathParam, .queryContinuation] ∧
      run (do
        let t ← expression lookup {} .label [x]
        let u ← expression lookup {} .label [x]
        pure (t ++ u)) = ⟨.ok (lit ".."), [lit "x", lit "x"]⟩ ∧
      Operator.simple ∈ [Operator.simple, .reserved] ∧
      run (do
        let (t, as) ← expressionWithUnits lookup {} .simple [x]
        let (u, bs) ← expressionWithUnits lookup {} .simple [x]
        pure (if as = [] then u else if bs = [] then t else t ++ lit "," ++ u)) =
          ⟨.ok (lit ","), [lit "x", lit "x"]⟩ := by
  intro x lookup
  obtain ⟨hlabel, -, -, hsimple, -⟩ := expression_append lookup {} [x] [x]
  have hl : Operator.label ∈ [Operator.label, .pathSegment, .pathParam, .queryContinuation] := by
    decide
  have hs : Operator.simple ∈ [Operator.simple, .reserved] := by decide
  refine ⟨hl, ?_, hs, ?_⟩
  · rw [← hlabel _ hl]
    rfl
  · rw [← hsimple _ hs]
    rfl

end Expansion

end UriTemplate

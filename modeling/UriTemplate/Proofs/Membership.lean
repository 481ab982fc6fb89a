import UriTemplate.Proofs.History

/-!
Members and values. Variables are made of a mapping, of a query string or of names with any number
of values each, and are changed after that. A name that has a value is a member. So is one that was
set to the undefined value last, and no other: null, too, says that a name is undefined, but what is
set to null is left unbound.
-/

namespace UriTemplate

/-! ### Making variables -/

/-- A call that makes variables anew, or changes them. -/
inductive Call where
  | ofMapping (m : List (Name × Datum))
  | ofQuery (q : Text)
  | ofMultimap (m : List (Name × List Text))
  | change (c : Change)

namespace Call

/-- The step that makes the call. -/
def command : Call → Session.Command
  | ofMapping m => .renew (textKeys m)
  | ofQuery q => .fromQuery q
  | ofMultimap m => .fromMultimap m
  | change c => c.command

/-- A name is bound to all its values at once. -/
def effectOf (e : Name × List Text) : Effect := ⟨e.1, some (.value (Variables.valueOf e.2))⟩

/-- A history with one more call. Making variables anew begins another one, unless a mapping has a
datum that nothing can be made of. -/
def after (h : List Effect) : Call → List Effect
  | ofMapping m => if m.all fun p => p.2.makesValue then (Change.addAll m).effects else h
  | ofQuery q => (Query.grouped (Query.pairs q)).map effectOf
  | ofMultimap m => m.map effectOf
  | change c => h ++ c.effects

/-- The history of the variables that there are after some calls. -/
def history (cs : List Call) : List Effect := cs.foldl after []

lemma history_append_singleton (cs : List Call) (c : Call) :
    history (cs ++ [c]) = c.after (history cs) := by
  rw [history, List.foldl_append, List.foldl_cons, List.foldl_nil, history]

end Call

/-! ### Null in histories -/

lemma Change.datum_effectOf (p : Name × Datum) : (effectOf p).datum ≠ some .null := by
  obtain ⟨n, d⟩ := p
  cases d <;> simp [effectOf, Datum.isNull]

lemma Change.datum_of_mem_effects (c : Change) : ∀ x ∈ c.effects, x.datum ≠ some .null := by
  intro x hx
  rcases c with ⟨n, d⟩ | m | n
  · simp only [effects] at hx
    split_ifs at hx
    · obtain rfl := List.mem_singleton.mp hx
      exact datum_effectOf _
    · cases hx
  · obtain ⟨p, -, rfl⟩ := List.mem_map.mp hx
    exact datum_effectOf p
  · obtain rfl := List.mem_singleton.mp hx
    simp

lemma Call.datum_effectOf (e : Name × List Text) : (effectOf e).datum ≠ some .null := by
  simp [effectOf]

/-- **No name was set to null**, which leaves it unbound. -/
theorem Call.datum_of_mem_history (cs : List Call) :
    ∀ x ∈ history cs, x.datum ≠ some .null := by
  induction cs using List.reverseRecOn with
  | nil => simp [history]
  | append_singleton cs c ih =>
    rw [history_append_singleton]
    rcases c with m | q | m | c
    · simp only [after]
      split_ifs
      · exact Change.datum_of_mem_effects _
      · exact ih
    · exact List.forall_mem_map.mpr fun e _ => datum_effectOf e
    · exact List.forall_mem_map.mpr fun e _ => datum_effectOf e
    · exact List.forall_mem_append.mpr ⟨ih, c.datum_of_mem_effects⟩

lemma LastSet.ne_null {cs : List Call} {n : Name} {d : Datum} (h : LastSet (Call.history cs) n d) :
    d ≠ .null := by
  obtain ⟨u, w, heq, -⟩ := h
  rintro rfl
  exact Call.datum_of_mem_history cs ⟨n, some .null⟩ (by simp [heq]) rfl

/-- Two data say that a name is undefined. -/
lemma Datum.toValue_eq_undefined {d : Datum} :
    d.toValue false = .ok .undefined ↔ d = .null ∨ d = .value .undefined := by
  cases d <;> simp [toValue]

/-! ### Variables that are made anew -/

/-- A session after some calls, whether they failed or not. -/
def Session.calls (s : Session) (cs : List Call) : Session :=
  cs.foldl (fun s c => (s.step c.command).2) s

namespace Records

variable {h : List Effect} {vs : Variables}

/-- Names are bound in turn, with all their values. -/
lemma bindAll (hr : Records h vs) (m : List (Name × List Text)) :
    Records (h ++ m.map Call.effectOf)
      (m.foldl (fun vs e => vs.bind (.text e.1) (Variables.valueOf e.2)) vs) := by
  induction m generalizing h vs with
  | nil => simpa using hr
  | cons e m ih =>
    have hbind := hr.bind (d := .value (Variables.valueOf e.2)) rfl e.1
    simpa [Call.effectOf] using ih hbind

/-- Variables are made of a mapping by setting its items, if something can be made of each. -/
lemma ofEntries_cases (m : List (Name × Datum)) :
    (∃ ws, Variables.ofEntries (textKeys m) = .ok ws ∧ (∀ p ∈ m, p.2.makesValue = true) ∧
        Records (Change.addAll m).effects ws) ∨
      ∃ e, Variables.ofEntries (textKeys m) = .error e ∧ ∃ p ∈ m, p.2.makesValue = false := by
  have hadd := Records.nil.addAll m
  rcases Variables.addAll_cases .empty (textKeys m) with
    ⟨ws, heach, hws⟩ | ⟨u, x, z, ws, e, heq, -, hx, -, hws⟩
  · refine .inl ⟨ws, by rw [Variables.ofEntries, hws], fun p hp => ?_, by rwa [hws] at hadd⟩
    exact Variables.makesValue_of_setEach heach _ (List.mem_map_of_mem hp)
  · have hmem : x ∈ textKeys m := by simp [heq]
    obtain ⟨p, hp, rfl⟩ := List.mem_map.mp hmem
    exact .inr ⟨e, by rw [Variables.ofEntries, hws], p, hp, Variables.makesValue_of_set_error hx⟩

/-- **A call takes the history on**. -/
theorem call {s : Session} (hr : Records h s.bound) (c : Call) :
    Records (c.after h) (s.step c.command).2.bound := by
  rcases c with m | q | m | c
  · rcases ofEntries_cases m with ⟨ws, hws, hall, hrecords⟩ | ⟨e, he, p, hp, hfalse⟩
    · have hall' : (m.all fun p => p.2.makesValue) = true := by simpa using hall
      simpa only [Call.after, Call.command, Session.step, Session.replace, hws, hall', if_true]
        using hrecords
    · have hall' : (m.all fun p => p.2.makesValue) = false :=
        List.all_eq_false.mpr ⟨p, hp, by simp [hfalse]⟩
      simpa only [Call.after, Call.command, Session.step, Session.replace, he, hall',
        Bool.false_eq_true, if_false] using hr
  · exact Records.nil.bindAll _
  · exact Records.nil.bindAll m
  · exact hr.step c

/-- **Variables are what their history says**, however they were made. -/
theorem calls (cs : List Call) : Records (Call.history cs) (Session.start.calls cs).bound := by
  induction cs using List.reverseRecOn with
  | nil => exact .nil
  | append_singleton cs c ih =>
    rw [Call.history_append_singleton, Session.calls, List.foldl_append]
    exact ih.call c

end Records

/-! ### Members -/

namespace Session

/-- **Members and values**: after any calls, the names that are members have a value or were set to
the undefined value last, and no other name has a value. So to be a member is to have a value
exactly as long as no name was set to the undefined value last. -/
theorem contains_iff_get (cs : List Call) :
    let vs := (start.calls cs).bound
    let h := Call.history cs
    (∃ ns : List Name, vs.keys = ns.map .text ∧ InOrder h ns ∧ vs.size = ns.length ∧
        ∀ n, vs.contains n = true ↔ n ∈ ns) ∧
      (∀ n, vs.contains n = true ↔ vs.get n ≠ .undefined ∨ LastSet h n (.value .undefined)) ∧
      ((∀ n, vs.contains n = true ↔ vs.get n ≠ .undefined) ↔
        ∀ n, ¬ LastSet h n (.value .undefined)) := by
  intro vs h
  have hr : Records h vs := .calls cs
  obtain ⟨ns, hkeys, ho⟩ := hr.names
  have hsize : vs.size = ns.length :=
    calc vs.size = vs.keys.length := (List.length_map _).symm
      _ = ns.length := by rw [hkeys, List.length_map]
  -- what is set last and has no value was set to the undefined value
  have hget : ∀ n d, LastSet h n d → (vs.get n = .undefined ↔ d = .value .undefined) := by
    intro n d hd
    have hnull := hd.ne_null
    have hv := hr.get_of_lastSet hd
    rw [← Except.ok.injEq, ← hv, Datum.toValue_eq_undefined]
    simp [hnull]
  have hmember : ∀ n, vs.contains n = true ↔
      vs.get n ≠ .undefined ∨ LastSet h n (.value .undefined) := by
    intro n
    rw [hr.contains_iff]
    constructor
    · rintro ⟨d, hd⟩
      by_cases hn : vs.get n = .undefined
      · exact .inr ((hget n d hd).mp hn ▸ hd)
      · exact .inl hn
    · rintro (hn | hd)
      · by_contra hnone
        exact hn (hr.get_of_unset (not_exists.mp hnone))
      · exact ⟨_, hd⟩
  refine ⟨⟨ns, hkeys, ho, hsize, fun n => hr.contains_iff.trans (ho.mem_iff n).symm⟩, hmember, ?_⟩
  constructor
  · intro hall n hd
    exact (hall n).mp ((hmember n).mpr (.inr hd)) ((hget n _ hd).mpr rfl)
  · intro hnone n
    rw [hmember, or_iff_left (hnone n)]

/-- The undefined value is bound, and null is not. -/
theorem contains_undefined :
    ¬ ∀ (cs : List Call) (n : Name), (start.calls cs).bound.contains n = true ↔
      (start.calls cs).bound.get n ≠ .undefined := by
  intro h
  have hcontains := (h [.change (.set (lit "a") (.value .undefined))] (lit "a")).mp rfl
  exact hcontains rfl

end Session

end UriTemplate

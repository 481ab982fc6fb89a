import UriTemplate.Proofs.Binding
import UriTemplate.Session

/-!
Variables and their history. Calls set names, add mappings and remove names. What variables are in
the end is what the effects of the calls say: each name has the value of the datum that it was set
to last, and the names stand in the order in which they were bound without having been bound before.
-/

namespace UriTemplate

/-! ### Histories -/

/-- What a call that takes effect leaves a name with: a datum, or nothing. -/
structure Effect where
  name : Name
  datum : Option Datum

/-- A name was set to a datum, and nothing was done to it since. -/
def LastSet (h : List Effect) (n : Name) (d : Datum) : Prop :=
  ∃ u w, h = u ++ ⟨n, some d⟩ :: w ∧ ∀ x ∈ w, x.name ≠ n

/-- At some time a name was bound that was not bound before. -/
def BindsAnew (h : List Effect) (n : Name) (i : Nat) : Prop :=
  ∃ u d w, h = u ++ ⟨n, some d⟩ :: w ∧ u.length = i ∧ ∀ d', ¬ LastSet u n d'

/-- Some names are those that a history leaves bound, each once, and in the order of the times at
which they were last bound anew. -/
structure InOrder (h : List Effect) (ns : List Name) : Prop where
  nodup : ns.Nodup
  mem_iff : ∀ n, n ∈ ns ↔ ∃ d, LastSet h n d
  times : ∃ τ : Name → Nat, (∀ n ∈ ns, IsGreatest {i | BindsAnew h n i} (τ n)) ∧
    ns.Pairwise fun m n => τ m < τ n

/-- What is cut at some element of a list with one more at its end is cut there or before. -/
lemma append_singleton_eq {h u w : List Effect} {x y : Effect} (heq : h ++ [x] = u ++ y :: w) :
    (h = u ∧ x = y ∧ w = []) ∨ ∃ w', w = w' ++ [x] ∧ h = u ++ y :: w' := by
  rcases List.eq_nil_or_concat' w with rfl | ⟨w, z, rfl⟩
  · obtain ⟨rfl, hx⟩ := List.append_inj' heq rfl
    exact .inl ⟨rfl, List.singleton_inj.mp hx, rfl⟩
  · rw [← List.cons_append, ← List.append_assoc] at heq
    obtain ⟨rfl, hx⟩ := List.append_inj' heq rfl
    obtain rfl := List.singleton_inj.mp hx
    exact .inr ⟨w, rfl, rfl⟩

lemma lastSet_append_singleton {h : List Effect} {x : Effect} {n : Name} {d : Datum} :
    LastSet (h ++ [x]) n d ↔ if x.name = n then x.datum = some d else LastSet h n d := by
  constructor
  · rintro ⟨u, w, heq, hw⟩
    rcases append_singleton_eq heq with ⟨-, rfl, -⟩ | ⟨w, rfl, rfl⟩
    · rw [if_pos rfl]
    · rw [if_neg (hw x (by simp))]
      exact ⟨u, w, rfl, fun z hz => hw z (by simp [hz])⟩
  · intro hx
    split_ifs at hx with hn
    · exact ⟨h, [], by subst hn; rw [← hx], by simp⟩
    · obtain ⟨u, w, rfl, hw⟩ := hx
      refine ⟨u, w ++ [x], by simp, fun z hz => ?_⟩
      rcases List.mem_append.mp hz with hz | hz
      · exact hw z hz
      · rw [List.mem_singleton.mp hz]
        exact hn

lemma bindsAnew_append_singleton {h : List Effect} {x : Effect} {n : Name} {i : Nat} :
    BindsAnew (h ++ [x]) n i ↔
      BindsAnew h n i ∨ i = h.length ∧ x.name = n ∧ x.datum ≠ none ∧ ∀ d, ¬ LastSet h n d := by
  constructor
  · rintro ⟨u, d, w, heq, rfl, hu⟩
    rcases append_singleton_eq heq with ⟨rfl, rfl, -⟩ | ⟨w, rfl, rfl⟩
    · exact .inr ⟨rfl, rfl, by simp, hu⟩
    · exact .inl ⟨u, d, w, rfl, rfl, hu⟩
  · rintro (⟨u, d, w, rfl, rfl, hu⟩ | ⟨rfl, rfl, hx, hn⟩)
    · exact ⟨u, d, w ++ [x], by simp, rfl, hu⟩
    · obtain ⟨d, hd⟩ := Option.ne_none_iff_exists'.mp hx
      exact ⟨h, d, [], by rw [← hd], rfl, hn⟩

lemma BindsAnew.lt_length {h : List Effect} {n : Name} {i : Nat} (hi : BindsAnew h n i) :
    i < h.length := by
  obtain ⟨u, d, w, rfl, rfl, -⟩ := hi
  simp

namespace InOrder

variable {h : List Effect} {ns : List Name} {n : Name}

lemma nil : InOrder [] [] where
  nodup := List.nodup_nil
  mem_iff n := by simp [LastSet]
  times := ⟨fun _ => 0, by simp, List.Pairwise.nil⟩

/-- What is done to other names is no matter to the time at which a name was last bound anew. -/
lemma isGreatest_append {x : Effect} {m : Name} {i : Nat}
    (hm : x.name = m → x.datum = none ∨ ∃ d, LastSet h m d)
    (hi : IsGreatest {i | BindsAnew h m i} i) :
    IsGreatest {i | BindsAnew (h ++ [x]) m i} i := by
  have hset : {i | BindsAnew (h ++ [x]) m i} = {i | BindsAnew h m i} := by
    ext j
    simp only [Set.mem_ofPred_eq, bindsAnew_append_singleton, or_iff_left_iff_imp]
    rintro ⟨-, hx, hdatum, hnone⟩
    rcases hm hx with hx | ⟨d, hd⟩
    · exact absurd hx hdatum
    · exact absurd hd (hnone d)
  rwa [hset]

/-- A name that is bound keeps its place when it is bound again. -/
theorem rebind (ho : InOrder h ns) (hn : n ∈ ns) (d : Datum) :
    InOrder (h ++ [⟨n, some d⟩]) ns where
  nodup := ho.nodup
  mem_iff m := by
    by_cases hm : n = m
    · subst hm
      simp [lastSet_append_singleton, hn]
    · simp [lastSet_append_singleton, hm, ho.mem_iff m]
  times := by
    obtain ⟨τ, hτ, horder⟩ := ho.times
    exact ⟨τ, fun m hm => isGreatest_append (fun _ => .inr ((ho.mem_iff m).mp hm)) (hτ m hm),
      horder⟩

/-- A name that is not bound goes to the end. -/
theorem bind (ho : InOrder h ns) (hn : n ∉ ns) (d : Datum) :
    InOrder (h ++ [⟨n, some d⟩]) (ns ++ [n]) where
  nodup := by
    rw [← List.concat_eq_append]
    exact ho.nodup.concat hn
  mem_iff m := by
    by_cases hm : n = m
    · subst hm
      simp [lastSet_append_singleton]
    · simp [lastSet_append_singleton, hm, ho.mem_iff m, Ne.symm hm]
  times := by
    -- the new time is later than all others
    obtain ⟨τ, hτ, horder⟩ := ho.times
    have hother : ∀ m ∈ ns, m ≠ n := fun m hm e => hn (e ▸ hm)
    have hlast : IsGreatest {i | BindsAnew (h ++ [⟨n, some d⟩]) n i} h.length := by
      constructor
      · refine bindsAnew_append_singleton.mpr (.inr ⟨rfl, rfl, by simp, fun d' hd' => ?_⟩)
        exact hn ((ho.mem_iff n).mpr ⟨d', hd'⟩)
      · intro i hi
        have := hi.lt_length
        simp at this
        omega
    refine ⟨Function.update τ n h.length, fun m hm => ?_, ?_⟩
    · rcases List.mem_append.mp hm with hm | hm
      · rw [Function.update_of_ne (hother m hm)]
        exact isGreatest_append (fun e => absurd e.symm (hother m hm)) (hτ m hm)
      · obtain rfl := List.mem_singleton.mp hm
        rwa [Function.update_self]
    · refine List.pairwise_append.mpr ⟨?_, List.pairwise_singleton _ _, ?_⟩
      · refine horder.imp_of_mem fun {a b} ha hb hab => ?_
        rwa [Function.update_of_ne (hother a ha), Function.update_of_ne (hother b hb)]
      · intro a ha b hb
        obtain rfl := List.mem_singleton.mp hb
        rw [Function.update_of_ne (hother a ha), Function.update_self]
        exact (hτ a ha).1.lt_length

/-- A name that is left unbound is taken out, and the others keep their places. -/
theorem unbind (ho : InOrder h ns) (n : Name) :
    InOrder (h ++ [⟨n, none⟩]) (ns.filter fun m => m ≠ n) where
  nodup := ho.nodup.filter _
  mem_iff m := by
    by_cases hm : n = m
    · subst hm
      simp [lastSet_append_singleton]
    · simp [lastSet_append_singleton, hm, ho.mem_iff m, Ne.symm hm]
  times := by
    obtain ⟨τ, hτ, horder⟩ := ho.times
    refine ⟨τ, fun m hm => ?_, horder.filter _⟩
    exact isGreatest_append (fun _ => .inl rfl) (hτ m (List.mem_filter.mp hm).1)

end InOrder

/-! ### Calls -/

/-- A call that changes variables. -/
inductive Change where
  | set (n : Name) (d : Datum)
  | addAll (m : List (Name × Datum))
  | remove (n : Name)

namespace Change

/-- The call that sets one item of a mapping. -/
def ofItem (p : Name × Datum) : Change := set p.1 p.2

/-- The step that makes the call. -/
def command : Change → Session.Command
  | set n d => .set n d
  | addAll m => .addAll (textKeys m)
  | remove n => .remove n

/-- Setting a name to null leaves it with nothing. -/
def effectOf (p : Name × Datum) : Effect := ⟨p.1, if p.2.isNull then none else some p.2⟩

/-- The effects of a call. A name is not set to a datum that nothing can be made of, and no item of
a mapping is set from the first such datum on. -/
def effects : Change → List Effect
  | set n d => if d.makesValue then [effectOf (n, d)] else []
  | addAll m => (m.takeWhile fun p => p.2.makesValue).map effectOf
  | remove n => [⟨n, none⟩]

end Change

/-- A session after some calls, whether they failed or not. -/
def Session.through (s : Session) (cs : List Change) : Session :=
  cs.foldl (fun s c => (s.step c.command).2) s

/-! ### Variables record their history -/

/-- Variables are what a history says. -/
structure Records (h : List Effect) (vs : Variables) : Prop where
  names : ∃ ns, vs.keys = ns.map .text ∧ InOrder h ns
  bound : ∀ n d, LastSet h n d → ∃ v, d.toValue false = .ok v ∧ vs.get? n = some v
  unbound : ∀ n, (∀ d, ¬ LastSet h n d) → vs.get? n = none

namespace Records

variable {h : List Effect} {vs ws : Variables} {n : Name}

lemma contains_iff (hr : Records h vs) : vs.contains n = true ↔ ∃ d, LastSet h n d := by
  rw [Variables.contains]
  constructor
  · intro hc
    by_contra hn
    rw [not_exists] at hn
    rw [hr.unbound n hn] at hc
    cases hc
  · rintro ⟨d, hd⟩
    obtain ⟨v, -, hv⟩ := hr.bound n d hd
    rw [hv]
    rfl

lemma get_of_lastSet (hr : Records h vs) {d : Datum} (hd : LastSet h n d) :
    d.toValue false = .ok (vs.get n) := by
  obtain ⟨v, hv, hget⟩ := hr.bound n d hd
  rw [hv, Variables.get, hget]
  rfl

lemma get_of_unset (hr : Records h vs) (hn : ∀ d, ¬ LastSet h n d) : vs.get n = .undefined := by
  rw [Variables.get, hr.unbound n hn]
  rfl

lemma nil : Records [] .empty where
  names := ⟨[], rfl, .nil⟩
  bound := by simp [LastSet]
  unbound _ _ := rfl

/-- One more effect leaves its name with what it says, and every other name alone. -/
lemma append {x : Effect} (hr : Records h vs)
    (hnames : ∃ ns, ws.keys = ns.map .text ∧ InOrder (h ++ [x]) ns)
    (hbound : ∀ d, x.datum = some d → ∃ v, d.toValue false = .ok v ∧ ws.get? x.name = some v)
    (hunbound : x.datum = none → ws.get? x.name = none)
    (hother : ∀ m, m ≠ x.name → ws.get? m = vs.get? m) : Records (h ++ [x]) ws where
  names := hnames
  bound m d hm := by
    rw [lastSet_append_singleton] at hm
    split_ifs at hm with hx
    · subst hx
      exact hbound d hm
    · rw [hother m (Ne.symm hx)]
      exact hr.bound m d hm
  unbound m hm := by
    simp only [lastSet_append_singleton] at hm
    by_cases hx : x.name = m
    · subst hx
      simp only [if_true] at hm
      exact hunbound (Option.eq_none_iff_forall_ne_some.mpr hm)
    · rw [hother m (Ne.symm hx)]
      exact hr.unbound m (by simpa [hx] using hm)

lemma bind (hr : Records h vs) {d : Datum} {v : Value} (hd : d.toValue false = .ok v) (n : Name) :
    Records (h ++ [⟨n, some d⟩]) (vs.bind (.text n) v) := by
  obtain ⟨ns, hkeys, ho⟩ := hr.names
  refine hr.append ⟨_, Variables.keys_bind hkeys n v, ?_⟩ ?_ nofun ?_
  · split_ifs with hn
    · exact ho.rebind hn d
    · exact ho.bind hn d
  · rintro d' ⟨⟩
    exact ⟨v, hd, by rw [Variables.get?_bind, if_pos rfl]⟩
  · intro m hm
    rw [Variables.get?_bind, if_neg hm]

lemma remove (hr : Records h vs) (n : Name) :
    Records (h ++ [⟨n, none⟩]) (vs.remove (.text n)) := by
  obtain ⟨ns, hkeys, ho⟩ := hr.names
  refine hr.append ⟨_, Variables.keys_remove hkeys n, ho.unbind n⟩ nofun ?_ ?_
  · rintro -
    rw [Variables.get?_remove, if_pos rfl]
  · intro m hm
    rw [Variables.get?_remove, if_neg hm]

/-- Setting a name has the effect that it says. -/
lemma set (hr : Records h vs) {d : Datum} (hset : vs.set (.text n) d = .ok ws) :
    Records (h ++ [Change.effectOf (n, d)]) ws := by
  rw [Variables.set] at hset
  unfold Change.effectOf
  split_ifs at hset ⊢ with hd
  · cases hset
    exact hr.remove n
  · rcases hv : d.toValue false with e | v <;> rw [hv] at hset
    · cases hset
    · cases hset
      exact hr.bind hv n

/-- Adding a mapping sets its items up to the first that fails. -/
lemma addAll (m : List (Name × Datum)) (hr : Records h vs) :
    Records (h ++ (Change.addAll m).effects) (vs.addAll (textKeys m)).1 := by
  induction m generalizing h vs with
  | nil => simpa [Change.effects, textKeys, Variables.addAll] using hr
  | cons p m ih =>
    rw [textKeys_cons, Variables.addAll]
    rcases hset : vs.set (.text p.1) p.2 with e | ws
    · have hp := Variables.makesValue_of_set_error hset
      simpa [Change.effects, hp] using hr
    · have hp := Variables.makesValue_of_set hset
      have h := ih (hr.set hset)
      simpa [Change.effects, hp] using h

/-- **A call adds its effects** to the history. -/
theorem step {s : Session} (hr : Records h s.bound) (c : Change) :
    Records (h ++ c.effects) (s.step c.command).2.bound := by
  rcases c with ⟨n, d⟩ | m | n
  · rcases hset : s.bound.set (.text n) d with e | ws
    · have hd := Variables.makesValue_of_set_error hset
      simpa [Change.effects, Change.command, Session.step, hset, hd] using hr
    · have hd := Variables.makesValue_of_set hset
      have h := hr.set hset
      simpa [Change.effects, Change.command, Session.step, hset, hd] using h
  · have h := hr.addAll m
    rcases hadd : s.bound.addAll (textKeys m) with ⟨ws, _ | e⟩ <;> rw [hadd] at h <;>
      simpa [Change.command, Session.step, hadd] using h
  · exact hr.remove n

/-- **Variables are what their history says** after any calls. -/
theorem through (cs : List Change) :
    Records (cs.flatMap Change.effects) (Session.start.through cs).bound := by
  -- from the end, since the history grows there
  induction cs using List.reverseRecOn with
  | nil => exact .nil
  | append_singleton cs c ih =>
    rw [List.flatMap_append, List.flatMap_singleton, Session.through, List.foldl_append]
    exact ih.step c

end Records

/-! ### Failing calls -/

namespace Session

variable {s : Session}

/-- A call that fails to set a name changes nothing. -/
lemma step_set_error {n : Name} {d : Datum} {e : Error}
    (h : (s.step (.set n d)).1 = .error e) :
    d.toValue false = .error e ∧ (s.step (.set n d)).2 = s := by
  rcases hset : s.bound.set (.text n) d with e' | ws
  · simp only [step, hset, Except.error.injEq] at h ⊢
    subst h
    exact ⟨Variables.set_eq_error_iff.mp hset, trivial⟩
  · simp [step, hset] at h

/-- Items that can be set, set by a call each. -/
lemma through_sets {u : List (Name × Datum)} {ws : Variables}
    (h : s.bound.setEach (textKeys u) = .ok ws) :
    s.through (u.map .ofItem) = { s with bound := ws } := by
  induction u generalizing s with
  | nil =>
    cases h
    rfl
  | cons p u ih =>
    rcases hset : s.bound.set (.text p.1) p.2 with e | us
    · rw [textKeys_cons, Variables.setEach_cons_error hset] at h
      cases h
    · rw [textKeys_cons, Variables.setEach_cons_ok hset] at h
      have hstep : (s.step (Change.ofItem p).command).2 = { s with bound := us } := by
        simp only [step, Change.ofItem, Change.command, hset]
      rw [List.map_cons, through, List.foldl_cons, hstep]
      exact ih h

/-- A call that fails to add a mapping leaves what setting the items before the first that fails
does. -/
lemma step_addAll_error {m : List (Name × Datum)} {e : Error}
    (h : (s.step (.addAll (textKeys m))).1 = .error e) :
    ∃ u p z, m = u ++ p :: z ∧ (∀ q ∈ u, q.2.makesValue = true) ∧ p.2.toValue false = .error e ∧
      (s.step (.addAll (textKeys m))).2 = s.through (u.map .ofItem) := by
  rcases Variables.addAll_cases s.bound (textKeys m) with
    ⟨ws, -, hadd⟩ | ⟨u', x, z', ws, e', hm, hu, hx, -, hadd⟩
  · simp [step, hadd] at h
  · simp only [step, hadd, Except.error.injEq] at h ⊢
    subst h
    obtain ⟨u, r, rfl, rfl, hr⟩ := List.map_eq_append_iff.mp hm
    obtain ⟨p, z, rfl, rfl, -⟩ := List.map_eq_cons_iff.mp hr
    refine ⟨u, p, z, rfl, fun q hq => ?_, Variables.set_eq_error_iff.mp hx, (through_sets hu).symm⟩
    exact Variables.makesValue_of_setEach hu _ (List.mem_map_of_mem hq)

/-- **Variables are an ordered map.** After any calls, whether they failed or not, the keys are the
names that were set last to a datum other than null, each once, and in the order in which they were
last bound anew; such a name has the value of the datum, every other one is undefined, and how many
names there are and which are there is said alike. A call that fails leaves all as it was, if it set
a name, or else what the items before the one that fails make of it. Whatever else is asked of a
name depends on its value alone. -/
theorem through_history (cs : List Change) :
    let s := start.through cs
    let h := cs.flatMap Change.effects
    (∃ ns : List Name, s.bound.keys = ns.map .text ∧ InOrder h ns ∧ s.bound.size = ns.length ∧
        ∀ n, s.bound.contains n = true ↔ n ∈ ns) ∧
      (∀ n d, LastSet h n d → d.toValue false = .ok (s.bound.get n)) ∧
      (∀ n, (∀ d, ¬ LastSet h n d) → s.bound.get n = .undefined) ∧
      (∀ n d e, (s.step (.set n d)).1 = .error e →
        e.kind = .wrongType ∧ (s.step (.set n d)).2 = s) ∧
      (∀ m e, (s.step (.addAll (textKeys m))).1 = .error e → e.kind = .wrongType ∧
        ∃ u p z, m = u ++ p :: z ∧ (∀ q ∈ u, q.2.makesValue = true) ∧
          p.2.toValue false = .error e ∧
          (s.step (.addAll (textKeys m))).2 = s.through (u.map .ofItem)) ∧
      ∀ n, (s.bound.single? n, s.bound.listOf n, s.bound.mapOf n) =
        match s.bound.get n with
        | .undefined => (none, [], [])
        | .scalar t => (some t, [t], [])
        | .list ts => (none, ts, [])
        | .map es => (none, [], Value.dictionary es) := by
  intro s h
  have hr : Records h s.bound := .through cs
  obtain ⟨ns, hkeys, ho⟩ := hr.names
  have hsize : s.bound.size = ns.length :=
    calc s.bound.size = s.bound.keys.length := (List.length_map _).symm
      _ = ns.length := by rw [hkeys, List.length_map]
  have hcontains : ∀ n, s.bound.contains n = true ↔ n ∈ ns := fun n =>
    hr.contains_iff.trans (ho.mem_iff n).symm
  refine ⟨⟨ns, hkeys, ho, hsize, hcontains⟩, fun n d hd => hr.get_of_lastSet hd,
    fun n hn => hr.get_of_unset hn, fun n d e he => ?_, fun m e he => ?_, fun n => ?_⟩
  · obtain ⟨hd, hs⟩ := step_set_error he
    exact ⟨Datum.kind_of_toValue hd, hs⟩
  · obtain ⟨u, p, z, hm, hu, hp, hs⟩ := step_addAll_error he
    exact ⟨Datum.kind_of_toValue hp, u, p, z, hm, hu, hp, hs⟩
  · rw [Variables.single?, Variables.listOf, Variables.mapOf, Variables.get]
    rcases s.bound.get? n with _ | (_ | t | ts | es) <;> rfl

/-- A name that is bound again keeps its place, unless it was left unbound before. -/
example :
    let (a, b, c) := (lit "a", lit "b", lit "c")
    (start.through [.addAll [(a, .int 1), (b, .int 2), (c, .int 3)], .set a (.int 4),
      .set b .null, .set b (.int 5), .set c (.object (lit "Foo"))]).bound.keys =
      [.text a, .text c, .text b] := by
  rfl

end Session

end UriTemplate

import UriTemplate.Proofs.Dependence
import UriTemplate.Proofs.Binding

/-!
The shapes of bindings. A mapping of names, the function that it is, and the variables that are
filled with it, all at once or item by item in any order, expand every template alike. Where nothing
can be made of a datum, the variables cannot be filled; the mapping and the function fail when the
name of such a datum is asked for, unless something else fails before.
-/

namespace UriTemplate

open Expansion

/-! ### Lookups of a mapping -/

/-- What a mapping has for a name: null if it has nothing. -/
def datumFor (m : List (Name × Datum)) (n : Name) : Datum := (m.lookup n).getD .null

namespace Bindings

lemma entryOf_textKeys (m : List (Name × Datum)) : entryOf (textKeys m) = datumFor m := by
  funext n
  rw [entryOf, lookup_textKeys, datumFor]

/-- A name of a mapping is there with its datum, or the mapping has nothing for it. -/
lemma datumFor_cases (m : List (Name × Datum)) (n : Name) :
    (n, datumFor m n) ∈ m ∨ n ∉ m.map Prod.fst ∧ datumFor m n = .null := by
  unfold datumFor
  rcases h : m.lookup n with _ | d
  · refine .inr ⟨?_, rfl⟩
    rintro hn
    obtain ⟨p, hp, rfl⟩ := List.mem_map.mp hn
    simpa using List.lookup_eq_none_iff.mp h p hp
  · obtain ⟨u, w, rfl, -⟩ := List.lookup_eq_some_iff.mp h
    exact .inl (by simp)

/-- Variables that have the value of each datum of a mapping look up what the mapping does. -/
lemma lookupData_eq {m : List (Name × Datum)} {vs : Variables}
    (hs : ∀ p ∈ m, p.2.isStream = false)
    (hm : ∀ p ∈ m, p.2.toValue false = .ok (vs.get p.1))
    (hrest : ∀ n ∉ m.map Prod.fst, vs.get n = .undefined) :
    lookupData (datumFor m) = fun _ n => .ok (vs.get n) := by
  funext asked n
  unfold lookupData
  rcases datumFor_cases m n with h | ⟨hn, h⟩
  · rw [Datum.toValue_of_isStream (hs _ h), hm _ h]
  · rw [h, hrest n hn]
    rfl

end Bindings

namespace Variables

/-- The variables that are filled with a mapping, item by item. -/
lemma expand_of_setEach {m : List (Name × Datum)} (hm : (m.map Prod.fst).Nodup)
    (hv : ∀ p ∈ m, p.2.makesValue = true) (hs : ∀ p ∈ m, p.2.isStream = false)
    {m' : List (Name × Datum)} (hperm : m'.Perm m) (t : Template) (o : Options) :
    ∃ vs, empty.setEach (textKeys m') = .ok vs ∧
      t.expand (.named vs) o = t.expand (.datum (.map (textKeys m))) o := by
  have hm' : (m'.map Prod.fst).Nodup := (hperm.map Prod.fst).nodup_iff.mpr hm
  obtain ⟨vs, hvs, hget, hrest⟩ :=
    get_setEach hm' (fun p hp => hv p (hperm.mem_iff.mp hp)) empty
  have hlookup := Bindings.lookupData_eq hs (fun p hp => hget p (hperm.mem_iff.mpr hp))
    fun n hn => hrest n fun h => hn ((hperm.map Prod.fst).mem_iff.mp h)
  refine ⟨vs, hvs, ?_⟩
  rw [Template.expand_eq rfl, Template.expand_eq rfl, Bindings.entryOf_textKeys, hlookup]

/-- Variables cannot be filled where nothing can be made of a datum. -/
lemma ofEntries_of_refused {m : List (Name × Datum)} (h : ∃ p ∈ m, p.2.makesValue = false) :
    ∃ e, ofEntries (textKeys m) = .error e ∧ e.kind = .wrongType := by
  obtain ⟨p, hp, hfalse⟩ := h
  rw [ofEntries_eq]
  rcases addAll_cases empty (textKeys m) with ⟨ws, hws, -⟩ | ⟨-, x, -, ws, e, -, -, hx, he, -⟩
  · have htrue := makesValue_of_setEach hws _ (List.mem_map_of_mem hp)
    rw [hfalse] at htrue
    cases htrue
  · exact ⟨e, he, Datum.kind_of_toValue (set_eq_error_iff.mp hx)⟩

end Variables

/-! ### Data that nothing can be made of -/

namespace Template

/-- An expansion with a mapping fails for the type of a datum exactly if the first occurrence that
fails asks for a datum which nothing can be made of. -/
lemma wrongType_iff (t : Template) (o : Options) (m : List (Name × Datum)) :
    (∃ e, (t.expand (.datum (.map (textKeys m))) o).result = .error e ∧ e.kind = .wrongType) ↔
      ∃ u v, u ++ [v] <+: t.terms.flatMap Term.vars ∧
        NoneFails (Bindings.lookupData (datumFor m)) o [] u ∧
        (datumFor m v.name).makesValue = false := by
  rw [expand_eq rfl, Bindings.entryOf_textKeys]
  simp only [result_eq_error_iff, Datum.makesValue_eq_false_iff]
  constructor
  · rintro ⟨e, ⟨u, v, hoccurs, hbefore, hfails⟩, hkind⟩
    refine ⟨u, v, hoccurs, hbefore, e, ?_⟩
    -- of the ways to fail, only the lookup's own is for a type
    generalize hx : Bindings.lookupData _ _ v.name = x at hfails
    rcases hfails with e | _ | _ | _
    · exact Datum.toValue_eq_error_iff.mp hx
    · cases hkind
    · cases hkind
    · cases hkind
  · rintro ⟨u, v, hoccurs, hbefore, e, he⟩
    refine ⟨e, ⟨u, v, hoccurs, hbefore, ?_⟩, Datum.kind_of_toValue he⟩
    rw [Bindings.lookupData, Datum.toValue_eq_error_iff.mpr he]
    exact .lookup e

/-- **The shape of bindings does not matter.** A mapping of different names expands a template as
the function does which it is. Where a value can be made of each datum, and none of them can be read
only once, so do variables made of the mapping, and variables filled with its items in any order.
Where there is a datum that nothing can be made of, variables cannot be made of the mapping, and
the mapping fails for the type of a datum exactly if such a datum is asked for before anything
fails. -/
theorem expand_shapes (t : Template) (o : Options) {m : List (Name × Datum)}
    (hm : (m.map Prod.fst).Nodup) :
    let mapping : Bindings := .datum (.map (textKeys m))
    t.expand (.function (datumFor m)) o = t.expand mapping o ∧
      ((∀ p ∈ m, p.2.makesValue = true ∧ p.2.isStream = false) →
        (∃ vs, Variables.ofEntries (textKeys m) = .ok vs ∧
          t.expand (.named vs) o = t.expand mapping o) ∧
        ∀ m', m'.Perm m → ∃ vs, Variables.empty.setEach (textKeys m') = .ok vs ∧
          t.expand (.named vs) o = t.expand mapping o) ∧
      ((∃ p ∈ m, p.2.makesValue = false) →
        (∃ e, Variables.ofEntries (textKeys m) = .error e ∧ e.kind = .wrongType) ∧
        ((∃ e, (t.expand mapping o).result = .error e ∧ e.kind = .wrongType) ↔
          ∃ u v, u ++ [v] <+: t.terms.flatMap Term.vars ∧
            NoneFails (Bindings.lookupData (datumFor m)) o [] u ∧
            (datumFor m v.name).makesValue = false)) := by
  refine ⟨?_, fun h => ?_, fun h => ⟨Variables.ofEntries_of_refused h, wrongType_iff t o m⟩⟩
  · rw [← Bindings.entryOf_textKeys, expand_eq rfl, expand_eq rfl]
  · have hv : ∀ p ∈ m, p.2.makesValue = true := fun p hp => (h p hp).1
    have hs : ∀ p ∈ m, p.2.isStream = false := fun p hp => (h p hp).2
    rw [Variables.ofEntries_eq]
    exact ⟨Variables.expand_of_setEach hm hv hs (.refl m) t o,
      fun m' hperm => Variables.expand_of_setEach hm hv hs hperm t o⟩

/-- A list with null in it and a name bound to null, set in the other order; and a datum of a type
that makes no value, asked for after a variable that is left out. -/
theorem shapes_of_list_and_object :
    let s := lit "\x7b?a,b*\x7d"
    let terms : List Term := [.expression .queryForm
      [⟨lit "a", lit "a", .whole⟩, ⟨lit "b", lit "b", .explode⟩]]
    let m : List (Name × Datum) :=
      [(lit "a", .null), (lit "b", .list [.text (lit "x"), .null, .bool true])]
    let m' : List (Name × Datum) := [(lit "b", .object (lit "Foo"))]
    ∃ h : termsOf s = .ok terms, (m.map Prod.fst).Nodup ∧ (m'.map Prod.fst).Nodup ∧
      (∃ vs, Variables.empty.setEach (textKeys m.reverse) = .ok vs ∧
        ((⟨s, terms, h⟩ : Template).expand (.named vs) {}).result = .ok (lit "?b=x&b=true")) ∧
      ∃ e, ((⟨s, terms, h⟩ : Template).expand (.datum (.map (textKeys m'))) {}).result =
        .error e ∧ e.kind = .wrongType := by
  intro s terms m m'
  have h : termsOf s = .ok terms := by decide +kernel
  have hm : (m.map Prod.fst).Nodup := by decide
  have hm' : (m'.map Prod.fst).Nodup := by decide
  obtain ⟨-, hfilled, -⟩ := expand_shapes ⟨s, terms, h⟩ {} hm
  obtain ⟨-, -, hrefused⟩ := expand_shapes ⟨s, terms, h⟩ {} hm'
  obtain ⟨vs, hvs, hexpand⟩ := (hfilled (by simp [m]; decide)).2 m.reverse (List.reverse_perm m)
  refine ⟨h, hm, hm', ⟨vs, hvs, by rw [hexpand]; rfl⟩, ?_⟩
  refine (hrefused ⟨_, List.mem_singleton.mpr rfl, rfl⟩).2.mpr
    ⟨[⟨lit "a", lit "a", .whole⟩], ⟨lit "b", lit "b", .explode⟩, ⟨[], rfl⟩, ⟨?_, trivial⟩, rfl⟩
  intro e hfails
  cases hfails with
  | missing hmiss => cases hmiss

end Template

end UriTemplate

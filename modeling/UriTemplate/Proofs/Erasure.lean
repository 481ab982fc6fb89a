import UriTemplate.Proofs.Failure
import UriTemplate.Proofs.Binding
import UriTemplate.Template

/-!
Null leaves no trace. A name that is bound to null is as good as not bound, and null among the
members of a sequence or among the values of a mapping is as good as not there, though a sequence
or a mapping of null alone is defined. So a mapping from which all null is erased expands every
template as it did before, whether it is handed over as it is or in variables made of it.
-/

namespace UriTemplate

open Expansion

/-! ### Erasing null -/

namespace Datum

/-- A datum without the null among its members. Members of members stay as they are, and what has
null alone for its members becomes empty. -/
def withoutNulls : Datum → Datum
  | list ds => .list (ds.filter fun d => !d.isNull)
  | tuple ds => .tuple (ds.filter fun d => !d.isNull)
  | map es => .map (es.filter fun e => !e.2.isNull)
  | d => d

@[simp] lemma isNull_withoutNulls (d : Datum) : d.withoutNulls.isNull = d.isNull := by
  cases d <;> rfl

/-- Null among members makes no difference to the value. -/
@[simp] lemma toValue_withoutNulls (d : Datum) (b : Bool) :
    d.withoutNulls.toValue b = d.toValue b := by
  cases d <;> simp [withoutNulls, toValue, itemTexts, entryTexts]

/-- The datum is a sequence or a mapping of null alone, and the word for its value is the given
one. -/
inductive Hollow : Datum → Text → Prop where
  | list {ds : List Datum} (h : ∀ d ∈ ds, d = .null) : Hollow (.list ds) (lit "list")
  | tuple {ds : List Datum} (h : ∀ d ∈ ds, d = .null) : Hollow (.tuple ds) (lit "list")
  | stream {ds : List Datum} (h : ∀ d ∈ ds, d = .null) : Hollow (.stream ds) (lit "list")
  | map {es : List (Datum × Datum)} (h : ∀ e ∈ es, e.2 = .null) : Hollow (.map es) (lit "map")

lemma itemTexts_of_null {ds : List Datum} (h : ∀ d ∈ ds, d = .null) : itemTexts ds = [] := by
  have hnone : (ds.filter fun d => !d.isNull) = [] :=
    List.filter_eq_nil_iff.mpr fun d hd => by simp [h d hd, isNull]
  rw [itemTexts, hnone, List.map_nil]

/-- What has null alone for its members is defined, and empty. -/
lemma Hollow.toValue {d : Datum} {kind : Text} (h : d.Hollow kind) :
    kind = lit "list" ∧ (∀ b, d.toValue b = .ok (.list [])) ∨
      kind = lit "map" ∧ ∀ b, d.toValue b = .ok (.map []) := by
  cases h with
  | list h => exact .inl ⟨rfl, fun b => by rw [Datum.toValue, itemTexts_of_null h]⟩
  | tuple h => exact .inl ⟨rfl, fun b => by rw [Datum.toValue, itemTexts_of_null h]⟩
  | stream h => exact .inl ⟨rfl, fun b => by rw [Datum.toValue, itemTexts_of_null h, ite_self]⟩
  | map h =>
    refine .inr ⟨rfl, fun b => ?_⟩
    rw [Datum.toValue, entryTexts, List.filter_eq_nil_iff.mpr fun e he => by simp [h e he, isNull]]
    rfl

end Datum

/-- A mapping: entries with keys that are all different. -/
structure Mapping where
  entries : List (Datum × Datum)
  distinct : Keyed.Distinct entries

namespace Mapping

/-- The entries with a datum other than null. -/
def defined (es : List (Datum × Datum)) : List (Datum × Datum) := es.filter fun e => !e.2.isNull

lemma defined_cons {e : Datum × Datum} (h : e.2.isNull = false) (es : List (Datum × Datum)) :
    defined (e :: es) = e :: defined es := List.filter_cons_of_pos (by simp [h])

lemma defined_cons_null {e : Datum × Datum} (h : e.2.isNull = true) (es : List (Datum × Datum)) :
    defined (e :: es) = defined es := List.filter_cons_of_neg (by simp [h])

lemma distinct_defined {es : List (Datum × Datum)} (h : Keyed.Distinct es) :
    Keyed.Distinct (defined es) :=
  h.sublist (List.filter_sublist.map _)

/-- The mapping without names that are bound to null, and without null among the members of what
others are bound to. -/
def withoutNulls (m : Mapping) : Mapping where
  entries := (defined m.entries).map fun e => (e.1, e.2.withoutNulls)
  distinct := by
    rw [Keyed.Distinct, List.map_map]
    exact distinct_defined m.distinct

end Mapping

/-! ### Looking up in a mapping -/

namespace Bindings

open Mapping (defined defined_cons defined_cons_null)

lemma entryOf_cons (e : Datum × Datum) (es : List (Datum × Datum)) (n : Name) :
    entryOf (e :: es) n = if Datum.text n == e.1 then e.2 else entryOf es n := by
  rw [entryOf, List.lookup_cons]
  cases Datum.text n == e.1 <;> rfl

lemma entryOf_of_absent {es : List (Datum × Datum)} {n : Name}
    (h : ∀ e ∈ es, (Datum.text n == e.1) = false) : entryOf es n = .null := by
  have hnone : es.lookup (.text n) = none :=
    List.lookup_eq_none_iff.mpr fun e he => by simp [bne, h e he]
  rw [entryOf, hnone, Option.getD_none]

/-- Entries with null say no more than none. -/
lemma entryOf_defined {es : List (Datum × Datum)} (h : Keyed.Distinct es) (n : Name) :
    entryOf (defined es) n = entryOf es n := by
  induction es with
  | nil => rfl
  | cons e es ih =>
    obtain ⟨he, hes⟩ := List.pairwise_cons.mp h
    rw [entryOf_cons]
    rcases hnull : e.2.isNull
    · rw [defined_cons hnull, entryOf_cons, ih hes]
    · rw [defined_cons_null hnull, ih hes]
      split_ifs with hn
      · -- the name has this entry alone
        have hname := (Datum.exact_text n e.1).2.mp hn
        rw [Datum.eq_null_of_isNull hnull]
        refine entryOf_of_absent fun e' he' => ?_
        rw [← hname]
        exact he _ (List.mem_map_of_mem he')
      · rfl

lemma entryOf_withoutNulls (m : Mapping) (n : Name) :
    entryOf m.withoutNulls.entries n = (entryOf m.entries n).withoutNulls := by
  rw [← entryOf_defined m.distinct, entryOf, entryOf, Mapping.withoutNulls,
    Keyed.lookup_map_snd]
  cases (defined m.entries).lookup (.text n) <;> rfl

end Bindings

/-! ### Variables made of a mapping -/

namespace Variables

open Mapping (defined defined_cons defined_cons_null)
open Bindings (entryOf)

variable {vs ws : Variables} {es : List (Datum × Datum)}

/-- A key that is not there is removed without effect. -/
lemma remove_of_absent {k : Datum} (h : ∀ k' ∈ vs.keys, (k' == k) = false) : vs.remove k = vs := by
  obtain ⟨ps, hd⟩ := vs
  have hkeep : Keyed.erase k ps = ps :=
    List.filter_eq_self.mpr fun p hp => by simp [h p.1 (List.mem_map_of_mem hp)]
  simp only [remove, hkeep]

lemma mem_keys_of_set {k d k' : Datum} (h : vs.set k d = .ok ws) (hk : k' ∈ ws.keys) :
    k' ∈ vs.keys ∨ k' = k := by
  rw [set] at h
  split_ifs at h
  · cases h
    obtain ⟨p, hp, rfl⟩ := List.mem_map.mp hk
    exact .inl (List.mem_map_of_mem (List.mem_filter.mp hp).1)
  · rcases hv : d.toValue false with e | v <;> rw [hv] at h <;> cases h
    rw [keys, bind, Keyed.keys_put] at hk
    split_ifs at hk
    · exact .inl hk
    · rcases List.mem_append.mp hk with hk | hk
      · exact .inl hk
      · exact .inr (List.mem_singleton.mp hk)

/-- Setting new keys to null has no effect. -/
lemma setEach_defined (hd : Keyed.Distinct es)
    (h : ∀ e ∈ es, ∀ k ∈ vs.keys, (k == e.1) = false) :
    vs.setEach (defined es) = vs.setEach es := by
  induction es generalizing vs with
  | nil => rfl
  | cons x es ih =>
    obtain ⟨hx, hd⟩ := List.pairwise_cons.mp hd
    obtain ⟨hvs, hes⟩ := List.forall_mem_cons.mp h
    rcases hnull : x.2.isNull
    · rw [defined_cons hnull]
      rcases hset : vs.set x.1 x.2 with e | us
      · rw [setEach_cons_error hset, setEach_cons_error hset]
      · rw [setEach_cons_ok hset, setEach_cons_ok hset]
        refine ih hd fun e he k hk => ?_
        rcases mem_keys_of_set hset hk with hk | rfl
        · exact hes e he k hk
        · exact hx e.1 (List.mem_map_of_mem he)
    · have hset : vs.set x.1 x.2 = .ok vs := by
        rw [set, if_pos hnull, remove_of_absent hvs]
      rw [defined_cons_null hnull, setEach_cons_ok hset]
      exact ih hd hes

/-- Null among members makes no difference to setting. -/
lemma setEach_withoutNulls (vs : Variables) (es : List (Datum × Datum)) :
    vs.setEach (es.map fun e => (e.1, e.2.withoutNulls)) = vs.setEach es := by
  rw [setEach, List.foldlM_map]
  refine congrArg (fun f => es.foldlM f vs) ?_
  funext vs e
  simp only [set, Datum.isNull_withoutNulls, Datum.toValue_withoutNulls]

/-- **Variables made of a mapping** are those made of it without null. -/
theorem ofEntries_withoutNulls (m : Mapping) :
    ofEntries m.withoutNulls.entries = ofEntries m.entries := by
  rw [ofEntries_eq, ofEntries_eq, Mapping.withoutNulls, setEach_withoutNulls]
  exact setEach_defined m.distinct fun _ _ _ hk => absurd hk List.not_mem_nil

/-- Setting other keys does not matter to the value of a name. -/
lemma get_of_setEach_absent (h : vs.setEach es = .ok ws) {n : Name}
    (hn : ∀ e ∈ es, (Datum.text n == e.1) = false) : ws.get n = vs.get n := by
  induction es generalizing vs with
  | nil =>
    cases h
    rfl
  | cons x es ih =>
    obtain ⟨hx, hes⟩ := List.forall_mem_cons.mp hn
    rcases hset : vs.set x.1 x.2 with e | us
    · rw [setEach_cons_error hset] at h
      cases h
    · rw [setEach_cons_ok hset] at h
      have hne : x.1 ≠ .text n := fun e => by simp [e, (Datum.exact_text n).beq_self] at hx
      rw [ih h hes, get_of_set_ne hset hne]

/-- **A name has the value** of what a mapping has for it, once the mapping is set. -/
theorem get_of_setEach (hd : Keyed.Distinct es) (h : vs.setEach es = .ok ws) {n : Name}
    (hn : vs.get n = .undefined) : (entryOf es n).toValue false = .ok (ws.get n) := by
  induction es generalizing vs with
  | nil =>
    cases h
    rw [hn]
    rfl
  | cons x es ih =>
    obtain ⟨k, d⟩ := x
    obtain ⟨hx, hd⟩ := List.pairwise_cons.mp hd
    rcases hset : vs.set k d with e | us
    · rw [setEach_cons_error hset] at h
      cases h
    · rw [setEach_cons_ok hset] at h
      rw [Bindings.entryOf_cons]
      split_ifs with hname
      · -- no later item is set under the name
        obtain rfl := (Datum.exact_text n k).2.mp hname
        obtain ⟨v, hv⟩ := Datum.makesValue_iff.mp (makesValue_of_set hset)
        obtain ⟨us', hset', hget⟩ := set_of_ok vs hv n
        obtain rfl := Except.ok.inj (hset.symm.trans hset')
        have habsent : ∀ e ∈ es, (Datum.text n == e.1) = false :=
          fun e he => hx e.1 (List.mem_map_of_mem he)
        rw [get_of_setEach_absent h habsent, hget, if_pos rfl, hv]
      · have hne : k ≠ .text n := fun e => hname (e ▸ (Datum.exact_text n).beq_self)
        exact ih hd h (by rw [get_of_set_ne hset hne, hn])

end Variables

/-! ### Handing mappings over -/

/-- How a mapping is handed over to a template: as it is, or in variables made of it. -/
inductive Handing where
  | plain
  | inVariables

namespace Handing

open Bindings (entryOf)

/-- What the template is given. -/
def bindings : Handing → Mapping → Except Error Bindings
  | plain, m => .ok (.datum (.map m.entries))
  | inVariables, m => (Variables.ofEntries m.entries).map .named

/-- What the template looks up. -/
def lookup (h : Handing) (m : Mapping) : Except Error Lookup := (h.bindings m).bind Bindings.lookup

variable {h : Handing} {m : Mapping} {f : Lookup}

lemma lookup_withoutNulls (h : Handing) (m : Mapping) : h.lookup m.withoutNulls = h.lookup m := by
  cases h with
  | plain =>
    have hentry : Bindings.lookupData (entryOf m.withoutNulls.entries) =
        Bindings.lookupData (entryOf m.entries) := by
      funext asked n
      rw [Bindings.lookupData, Bindings.entryOf_withoutNulls, Datum.toValue_withoutNulls]
      rfl
    exact congrArg Except.ok hentry
  | inVariables =>
    rw [lookup, lookup, bindings, bindings, Variables.ofEntries_withoutNulls]

/-- Variables answer as the mapping does that they were made of, but for what can be read only
once. -/
lemma lookup_cases (hf : h.lookup m = .ok f) (asked : List Name) (n : Name) :
    ∃ b, f asked n = (entryOf m.entries n).toValue b := by
  cases h with
  | plain =>
    cases hf
    exact ⟨_, rfl⟩
  | inVariables =>
    rcases hvs : Variables.ofEntries m.entries with e | vs
    · rw [lookup, bindings, hvs] at hf
      cases hf
    · rw [lookup, bindings, hvs] at hf
      cases hf
      rw [Variables.ofEntries_eq] at hvs
      exact ⟨false, (Variables.get_of_setEach m.distinct hvs rfl).symm⟩

/-- A mapping that cannot be handed over has a datum of a type that makes no value. -/
lemma kind_of_lookup {e : Error} (he : h.lookup m = .error e) : e.kind = .wrongType := by
  cases h with
  | plain => cases he
  | inVariables =>
    rcases hvs : Variables.ofEntries m.entries with e' | vs
    · rw [lookup, bindings, hvs] at he
      cases he
      rw [Variables.ofEntries] at hvs
      rcases Variables.addAll_cases .empty m.entries with
        ⟨ws, -, hws⟩ | ⟨-, x, -, ws, e', -, -, hx, -, hws⟩
      · rw [hws] at hvs
        cases hvs
      · rw [hws] at hvs
        cases hvs
        exact Datum.kind_of_toValue (Variables.set_eq_error_iff.mp hx)
    · rw [lookup, bindings, hvs] at he
      cases he

end Handing

namespace Template

open Bindings (entryOf)

variable {t : Template} {h : Handing} {m : Mapping} {o : Options} {v : Varspec}

/-- Expands the template with a mapping that is handed over in some way. Where it cannot be, the
error is that of handing it over. -/
def expandHanded (t : Template) (h : Handing) (m : Mapping) (o : Options) : Outcome :=
  match h.bindings m with
  | .ok b => t.expand b o
  | .error e => ⟨.error e, []⟩

lemma expandHanded_eq (t : Template) (h : Handing) (m : Mapping) (o : Options) :
    t.expandHanded h m o =
      match h.lookup m with
      | .ok f => run (Expansion.terms f o t.terms)
      | .error e => ⟨.error e, []⟩ := by
  rw [expandHanded, Handing.lookup]
  rcases h.bindings m with e | b
  · rfl
  · rcases hb : b.lookup with e | f <;> simp only [Except.bind, expand, hb]

/-- The expansion comes to an occurrence of a variable: none of those before it fails. -/
def ComesTo (t : Template) (h : Handing) (m : Mapping) (o : Options) (v : Varspec) : Prop :=
  ∃ f u, h.lookup m = .ok f ∧ u ++ [v] <+: t.terms.flatMap Term.vars ∧ NoneFails f o [] u

/-- An occurrence that fails, whatever was read before, is the last one that is come to. -/
lemma result_of_comesTo {e : Error} (hv : t.ComesTo h m o v)
    (hfails : ∀ b, Fails o v ((entryOf m.entries v.name).toValue b) e) :
    (t.expandHanded h m o).result = .error e := by
  obtain ⟨f, u, hf, hoccurs, hbefore⟩ := hv
  obtain ⟨b, hb⟩ := Handing.lookup_cases hf ((u.map Varspec.name).reverse ++ []) v.name
  rw [expandHanded_eq, hf]
  exact result_eq_error_iff.mpr ⟨u, v, hoccurs, hbefore, by rw [hb]; exact hfails b⟩

/-- A variable is missing only if it has no value. -/
lemma toValue_of_missing {n : Name}
    (hmissing : (t.expandHanded h m o).result = .error (.missingVariable n)) :
    ∃ b, (entryOf m.entries n).toValue b = .ok .undefined := by
  rw [expandHanded_eq] at hmissing
  rcases hf : h.lookup m with e | f <;> rw [hf] at hmissing
  · cases hmissing
    cases Handing.kind_of_lookup hf
  · obtain ⟨u, v, -, -, hfails⟩ := result_eq_error_iff.mp hmissing
    obtain ⟨b, hb⟩ := Handing.lookup_cases hf ((u.map Varspec.name).reverse ++ []) v.name
    rw [hb] at hfails
    generalize hx : (entryOf m.entries v.name).toValue b = x at hfails
    cases hfails with
    | lookup => cases Datum.kind_of_toValue (Datum.toValue_eq_error_iff.mp hx)
    | missing => exact ⟨b, hx⟩

/-- **Null leaves no trace.** A mapping and what is left of it when null is erased, as a datum of a
name, a member of a sequence or a value of an entry, expand every template alike, with the same text
or the same error, and ask for the same names; it does not matter whether they are handed over as
they are or in variables. A sequence or a mapping of null alone is a defined value: a variable that
is bound to it is never missing, and an occurrence of it that would have to be cut fails. A variable
that is bound to null is missing where it must not be. -/
theorem expand_withoutNulls (t : Template) (h : Handing) (m : Mapping) (o : Options) :
    t.expandHanded h m.withoutNulls o = t.expandHanded h m o ∧
      ∀ n,
        (∀ kind, (entryOf m.entries n).Hollow kind →
          (t.expandHanded h m o).result ≠ .error (.missingVariable n) ∧
          ∀ v c, v.name = n → v.modifier = .cut c → t.ComesTo h m o v →
            (t.expandHanded h m o).result = .error (.modifierConflict n kind)) ∧
        (entryOf m.entries n = .null → o.allowsUndefined = false →
          ∀ v, v.name = n → t.ComesTo h m o v →
            (t.expandHanded h m o).result = .error (.missingVariable n)) := by
  refine ⟨?_, fun n => ⟨fun kind hhollow => ⟨fun hmissing => ?_, ?_⟩, ?_⟩⟩
  · rw [expandHanded_eq, expandHanded_eq, Handing.lookup_withoutNulls]
  · obtain ⟨b, hb⟩ := toValue_of_missing hmissing
    obtain ⟨-, hx⟩ | ⟨-, hx⟩ := hhollow.toValue <;> rw [hx] at hb <;> cases hb
  · rintro v c rfl hc hv
    refine result_of_comesTo hv fun b => ?_
    obtain ⟨rfl, hx⟩ | ⟨rfl, hx⟩ := hhollow.toValue <;> rw [hx]
    · exact .list hc []
    · exact .map hc []
  · rintro hnull ho v rfl hv
    refine result_of_comesTo hv fun b => ?_
    rw [hnull]
    exact .missing ho

/-- A name bound to null ahead of one that is bound to null alone and would have to be cut. -/
theorem expand_withoutNulls_hollow :
    let s := lit "\x7b?a,b:3\x7d"
    let v : Varspec := ⟨lit "a", lit "a", .whole⟩
    let w : Varspec := ⟨lit "b", lit "b", .cut ⟨3, by decide⟩⟩
    ∃ (hs : termsOf s = .ok [.expression .queryForm [v, w]]) (m : Mapping),
      let t : Template := ⟨s, _, hs⟩
      m.entries = [(.text (lit "a"), .null), (.text (lit "b"), .tuple [.null, .null])] ∧
        m.withoutNulls.entries = [(.text (lit "b"), .tuple [])] ∧
        t.expandHanded .plain m.withoutNulls {} = t.expandHanded .plain m {} ∧
        (entryOf m.entries (lit "b")).Hollow (lit "list") ∧
        t.ComesTo .plain m {} w ∧
        (t.expandHanded .plain m {}).result = .error (.modifierConflict (lit "b") (lit "list")) ∧
        t.ComesTo .inVariables m ⟨false⟩ v ∧
        (t.expandHanded .inVariables m ⟨false⟩).result = .error (.missingVariable (lit "a")) := by
  intro s v w
  have hs : termsOf s = .ok [.expression .queryForm [v, w]] := by decide +kernel
  let m : Mapping := ⟨[(.text (lit "a"), .null), (.text (lit "b"), .tuple [.null, .null])],
    by simp [Keyed.Distinct]; rfl⟩
  have hhollow : (entryOf m.entries (lit "b")).Hollow (lit "list") := .tuple (by simp)
  obtain ⟨herased, hn⟩ := expand_withoutNulls ⟨s, _, hs⟩ .plain m {}
  obtain ⟨-, hn'⟩ := expand_withoutNulls ⟨s, _, hs⟩ .inVariables m ⟨false⟩
  have hw : ComesTo ⟨s, _, hs⟩ .plain m {} w := by
    refine ⟨_, [v], rfl, ⟨[], rfl⟩, fun e he => ?_, trivial⟩
    cases he with
    | missing h => cases h
  have hv : ComesTo ⟨s, _, hs⟩ .inVariables m ⟨false⟩ v := ⟨_, [], rfl, ⟨[w], rfl⟩, trivial⟩
  exact ⟨hs, m, rfl, rfl, herased, hhollow, hw, ((hn _).1 _ hhollow).2 w _ rfl rfl hw, hv,
    (hn' _).2 rfl rfl v rfl hv⟩

end Template

end UriTemplate

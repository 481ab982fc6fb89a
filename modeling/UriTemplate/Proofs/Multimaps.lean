import UriTemplate.Proofs.Queries
import UriTemplate.Proofs.Binding

/-!
Names with any number of values each. Variables made of them have the same names in the same order,
and list the same values for each of them, though a single value is kept as a text and any other
number of values as a list. Variables that were made so are names with values themselves, and
nothing changes when variables are made of these again.
-/

namespace UriTemplate

/-- Names, each once, with any number of values each, as the parameters of a request have them. -/
structure Multimap where
  names : List Name
  distinct : names.Nodup
  values : Name → List Text

namespace Multimap

/-- The names in order, each with its values. -/
def entries (m : Multimap) : List (Name × List Text) := m.names.map fun n => (n, m.values n)

lemma map_fst_entries (m : Multimap) : m.entries.map Prod.fst = m.names := by
  rw [entries, List.map_map]
  exact List.map_id _

end Multimap

/-! ### Variables with values -/

/-- The name that a key is, if it is one. -/
def Datum.text? : Datum → Option Name
  | text n => some n
  | _ => none

/-- Names with values, bound each. -/
def boundValues (m : List (Name × List Text)) : List (Datum × Value) :=
  textKeys (m.map fun e => (e.1, Variables.valueOf e.2))

/-- Binding a name to values gives it these values. -/
lemma put_boundValues (n : Name) (ts : List Text) (m : List (Name × List Text)) :
    Keyed.put (.text n) (Variables.valueOf ts) (boundValues m) =
      boundValues (Keyed.put n ts m) := by
  induction m with
  | nil => rfl
  | cons e m ih =>
    have hcons : ∀ e m, boundValues (e :: m) =
        (.text e.1, Variables.valueOf e.2) :: boundValues m := fun _ _ => rfl
    rw [hcons, Keyed.put, Keyed.put, Datum.text_beq_text]
    split_ifs
    · rw [hcons]
    · rw [hcons, ih]

namespace Variables

lemma ext {vs ws : Variables} (h : vs.entries = ws.entries) : vs = ws := by
  obtain ⟨es, _⟩ := vs
  obtain ⟨es', _⟩ := ws
  cases h
  rfl

/-- The keys that are names. -/
def names (vs : Variables) : List Name := vs.keys.filterMap Datum.text?

lemma nodup_names (vs : Variables) : vs.names.Nodup := by
  refine List.Pairwise.filterMap _ (fun k k' hk n hn n' hn' => ?_) vs.distinct
  cases k <;> cases hn
  cases k' <;> cases hn'
  rintro rfl
  rw [Datum.text_beq_text, beq_self_eq_true] at hk
  cases hk

/-- Variables as names with any number of values each: a text is the only value of its name. -/
def toMultimap (vs : Variables) : Multimap := ⟨vs.names, vs.nodup_names, vs.listOf⟩

lemma names_of_entries {vs : Variables} {m : List (Name × List Text)}
    (h : vs.entries = boundValues m) : vs.names = m.map Prod.fst := by
  rw [names, keys, h, boundValues, textKeys, List.map_map, List.map_map, List.filterMap_map,
    ← List.filterMap_eq_map]
  rfl

/-- A name that is bound to values lists them. -/
lemma listOf_of_entries {vs : Variables} {m : List (Name × List Text)}
    (h : vs.entries = boundValues m) (n : Name) : vs.listOf n = (m.lookup n).getD [] := by
  have hlookup : vs.get? n = (m.lookup n).map valueOf := by
    rw [get?, h, boundValues, lookup_textKeys, Keyed.lookup_map_snd]
  rw [listOf, hlookup]
  rcases m.lookup n with _ | _ | ⟨t, _ | ⟨u, ts⟩⟩ <;> rfl

/-- Whatever names are given values in turn, each name has those that it was given last. -/
lemma entries_ofMultimap_eq (m : List (Name × List Text)) :
    (ofMultimap m).entries = boundValues (Keyed.ofPairs m) := by
  have hstep : ∀ (l : List (Name × List Text)) (vs : Variables), vs.entries = boundValues l →
      (m.foldl (fun vs e => vs.bind (.text e.1) (valueOf e.2)) vs).entries =
        boundValues (m.foldl (fun l e => Keyed.put e.1 e.2 l) l) := by
    induction m with
    | nil => exact fun l vs h => h
    | cons e m ih =>
      intro l vs h
      refine ih _ _ ?_
      rw [← put_boundValues, ← h]
      rfl
  exact hstep [] empty rfl

/-- Variables that have values alone, and are made anew of them, are what they were. -/
lemma ofMultimap_toMultimap {vs : Variables} {m : List (Name × List Text)}
    (h : vs.entries = boundValues m) : ofMultimap vs.toMultimap.entries = vs := by
  have hd : (m.map Prod.fst).Nodup := names_of_entries h ▸ vs.nodup_names
  have hm : vs.toMultimap.entries = m := by
    change vs.names.map (fun n => (n, vs.listOf n)) = m
    rw [names_of_entries h, List.map_map]
    refine (List.map_congr_left fun e he => ?_).trans (List.map_id m)
    refine Prod.ext rfl ?_
    change vs.listOf e.1 = e.2
    rw [listOf_of_entries h, lookup_of_mem hd he]
    rfl
  refine ext ?_
  rw [hm, entries_ofMultimap hd, h, boundValues, textKeys, List.map_map]
  rfl

/-- **Nothing is lost** of names with any number of values each. Variables made of them have these
names in their order and list their values, be there none, one or many. Variables that were made of
names with values, or of a query, have names with values themselves, and variables made of these are
the same again: in their names, the order of them, and their values. -/
theorem ofMultimap_lossless :
    (∀ src : Multimap, let vs := ofMultimap src.entries
      vs.keys = src.names.map .text ∧
        ∀ n, vs.listOf n = if n ∈ src.names then src.values n else []) ∧
      (∀ m, ofMultimap (ofMultimap m).toMultimap.entries = ofMultimap m) ∧
      ∀ q, ofMultimap (ofQuery q).toMultimap.entries = ofQuery q := by
  have hagain : ∀ m, ofMultimap (ofMultimap m).toMultimap.entries = ofMultimap m :=
    fun m => ofMultimap_toMultimap (entries_ofMultimap_eq m)
  refine ⟨fun src => ?_, hagain, fun q => hagain _⟩
  intro vs
  have hd : (src.entries.map Prod.fst).Nodup := src.map_fst_entries.symm ▸ src.distinct
  have hvs : vs.entries = boundValues src.entries := by
    rw [entries_ofMultimap hd, boundValues, textKeys, List.map_map]
    rfl
  refine ⟨?_, fun n => ?_⟩
  · rw [keys, hvs, boundValues, textKeys, List.map_map, List.map_map, ← src.map_fst_entries,
      List.map_map]
    rfl
  · rw [listOf_of_entries hvs, Multimap.entries, lookup_map_mk]
    split_ifs <;> rfl

end Variables

end UriTemplate

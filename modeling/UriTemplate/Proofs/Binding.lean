import Mathlib
import UriTemplate.Binding.Variables

/-!
Binding names. A name is the same key as no other datum, so that binding or removing it matters to
the value of no other name. Setting a name fails exactly if nothing can be made of the datum, and a
mapping is set item by item, up to the first item that fails.
-/

namespace UriTemplate

/-! ### Keyed lists -/

namespace Keyed

variable {κ α : Type} [BEq κ] {k k' : κ}

/-- The key is the same as itself and as no other one. -/
def Exact (k : κ) : Prop := ∀ k', ((k' == k) = true ↔ k' = k) ∧ ((k == k') = true ↔ k' = k)

lemma exact_of_lawfulBEq [LawfulBEq κ] (k : κ) : Exact k := by
  intro k'
  rw [beq_iff_eq, beq_iff_eq]
  exact ⟨Iff.rfl, eq_comm⟩

lemma Exact.beq_self (hk : Exact k) : (k == k) = true := (hk k).1.mpr rfl

lemma Exact.beq_of_ne (hk : Exact k) (h : k' ≠ k) : (k' == k) = false :=
  Bool.eq_false_iff.mpr fun e => h ((hk k').1.mp e)

lemma Exact.of_ne_beq (hk : Exact k) (h : k' ≠ k) : (k == k') = false :=
  Bool.eq_false_iff.mpr fun e => h ((hk k').2.mp e)

lemma lookup_put_self (hk : Exact k) (v : α) (m : List (κ × α)) :
    (put k v m).lookup k = some v := by
  induction m with
  | nil => simp [put, List.lookup_cons, hk.beq_self]
  | cons p m ih =>
    obtain ⟨k', v'⟩ := p
    by_cases h : k' = k
    · subst h
      simp [put, List.lookup_cons, hk.beq_self]
    · simp [put, List.lookup_cons, hk.beq_of_ne h, hk.of_ne_beq h, ih]

/-- A key that is the same as one which is not looked for is not looked for either. -/
lemma Exact.of_beq_ne (hk : Exact k) {k₁ k₂ : κ} (h : (k₁ == k₂) = true) (hne : k₂ ≠ k) :
    (k == k₁) = false :=
  hk.of_ne_beq fun e => hne ((hk k₂).2.mp (e ▸ h))

/-- Putting another key does not matter to what is looked up. -/
lemma lookup_put_of_ne (hk : Exact k) (hne : k' ≠ k) (v : α) (m : List (κ × α)) :
    (put k' v m).lookup k = m.lookup k := by
  induction m with
  | nil => simp [put, List.lookup_cons, hk.of_ne_beq hne]
  | cons p m ih =>
    obtain ⟨k₂, v₂⟩ := p
    by_cases h : (k₂ == k') = true
    · simp [put, h, List.lookup_cons, hk.of_beq_ne h hne]
    · simp [put, h, List.lookup_cons, ih]

lemma lookup_erase_self (hk : Exact k) (m : List (κ × α)) : (erase k m).lookup k = none := by
  rw [List.lookup_eq_none_iff]
  intro p hp
  have hne : ¬ p.1 = k := by
    rintro rfl
    have h := (List.mem_filter.mp hp).2
    simp [hk.beq_self] at h
  simp [bne, hk.of_ne_beq hne]

/-- Erasing another key does not matter to what is looked up. -/
lemma lookup_erase_of_ne (hk : Exact k) (hne : k' ≠ k) (m : List (κ × α)) :
    (erase k' m).lookup k = m.lookup k := by
  induction m with
  | nil => rfl
  | cons p m ih =>
    obtain ⟨k₂, v₂⟩ := p
    unfold erase at ih ⊢
    by_cases h : (k₂ == k') = true
    · simp [h, List.lookup_cons, hk.of_beq_ne h hne, ih]
    · simp [h, List.lookup_cons, ih]

lemma lookup_map_snd {β : Type} (f : α → β) (k : κ) (m : List (κ × α)) :
    (m.map fun p => (p.1, f p.2)).lookup k = (m.lookup k).map f := by
  induction m with
  | nil => rfl
  | cons p m ih =>
    rw [List.map_cons, List.lookup_cons, List.lookup_cons]
    cases k == p.1 <;> simp [ih]

end Keyed

/-! ### Data -/

namespace Datum

lemma text_beq_text (m n : Name) : (text m == text n) = (m == n) := rfl

/-- A text is the same key as itself alone. -/
lemma exact_text (n : Name) : Keyed.Exact (Datum.text n) := by
  intro k
  cases k with
  | text s =>
    rw [text_beq_text, text_beq_text, beq_iff_eq, beq_iff_eq, text.injEq]
    exact ⟨Iff.rfl, eq_comm⟩
  | _ => exact ⟨⟨nofun, nofun⟩, ⟨nofun, nofun⟩⟩

lemma text_ne {m n : Name} (h : m ≠ n) : Datum.text m ≠ Datum.text n := fun e => h (text.inj e)

/-- A value can be made of the datum. -/
def makesValue (d : Datum) : Bool := (d.toValue false).isOk

lemma makesValue_iff {d : Datum} : d.makesValue = true ↔ ∃ v, d.toValue false = .ok v := by
  unfold makesValue
  rcases d.toValue false with e | v <;> simp [Except.isOk, Except.toBool]

lemma makesValue_eq_false_iff {d : Datum} :
    d.makesValue = false ↔ ∃ e, d.toValue false = .error e := by
  unfold makesValue
  rcases d.toValue false with e | v <;> simp [Except.isOk, Except.toBool]

lemma kind_of_toValue {d : Datum} {e : Error} (h : d.toValue false = .error e) :
    e.kind = .wrongType := by
  cases d <;> cases h <;> rfl

/-- Whether a stream was read before does not matter to failing. -/
lemma toValue_eq_error_iff {d : Datum} {b : Bool} {e : Error} :
    d.toValue b = .error e ↔ d.toValue false = .error e := by
  cases d <;> simp [toValue]

/-- The datum can be read only once. -/
def isStream : Datum → Bool
  | stream _ => true
  | _ => false

lemma toValue_of_isStream {d : Datum} (h : d.isStream = false) (b : Bool) :
    d.toValue b = d.toValue false := by
  cases d with
  | stream ds => cases h
  | _ => rfl

lemma eq_null_of_isNull {d : Datum} (h : d.isNull = true) : d = .null := by
  cases d with
  | null => rfl
  | _ => cases h

lemma toValue_of_isNull {d : Datum} (h : d.isNull = true) (b : Bool) :
    d.toValue b = .ok .undefined := by
  cases d with
  | null => rfl
  | _ => cases h

end Datum

/-! ### Variables -/

/-- The mapping whose keys are names. -/
def textKeys {α : Type} (m : List (Name × α)) : List (Datum × α) := m.map fun p => (.text p.1, p.2)

lemma textKeys_cons {α : Type} (p : Name × α) (m : List (Name × α)) :
    textKeys (p :: m) = (.text p.1, p.2) :: textKeys m := rfl

lemma lookup_textKeys {α : Type} (m : List (Name × α)) (n : Name) :
    (textKeys m).lookup (.text n) = m.lookup n := by
  induction m with
  | nil => rfl
  | cons p m ih =>
    rw [textKeys_cons, List.lookup_cons, List.lookup_cons, Datum.text_beq_text, ih]

lemma lookup_of_notMem {α : Type} {m : List (Name × α)} {n : Name} (hn : n ∉ m.map Prod.fst) :
    m.lookup n = none := by
  refine List.lookup_eq_none_iff.mpr fun p hp => ?_
  have hne : n ≠ p.1 := fun e => hn (e ▸ List.mem_map_of_mem hp)
  simpa using hne

lemma lookup_map_mk {α : Type} (ns : List Name) (f : Name → α) (n : Name) :
    (ns.map fun m => (m, f m)).lookup n = if n ∈ ns then some (f n) else none := by
  split_ifs with h
  · exact List.lookup_graph f h
  · have hfst : (ns.map fun m => (m, f m)).map Prod.fst = ns := by simp [Function.comp_def]
    exact lookup_of_notMem (by rwa [hfst])

lemma lookup_of_mem {α : Type} {m : List (Name × α)} (hm : (m.map Prod.fst).Nodup)
    {p : Name × α} (hp : p ∈ m) : m.lookup p.1 = some p.2 := by
  obtain ⟨u, w, rfl⟩ := List.append_of_mem hp
  refine List.lookup_eq_some_iff.mpr ⟨u, w, rfl, fun q hq => ?_⟩
  rw [List.map_append, List.nodup_append] at hm
  have hne : q.1 ≠ p.1 := hm.2.2 _ (List.mem_map_of_mem hq) _ (by simp)
  simpa using hne.symm

namespace Variables

variable {vs : Variables}

lemma get?_bind (vs : Variables) (n : Name) (v : Value) (n' : Name) :
    (vs.bind (.text n) v).get? n' = if n' = n then some v else vs.get? n' := by
  split_ifs with h
  · subst h
    exact Keyed.lookup_put_self (Datum.exact_text n') v vs.entries
  · exact Keyed.lookup_put_of_ne (Datum.exact_text n') (Datum.text_ne (Ne.symm h)) v vs.entries

lemma get?_remove (vs : Variables) (n n' : Name) :
    (vs.remove (.text n)).get? n' = if n' = n then none else vs.get? n' := by
  split_ifs with h
  · subst h
    exact Keyed.lookup_erase_self (Datum.exact_text n') vs.entries
  · exact Keyed.lookup_erase_of_ne (Datum.exact_text n') (Datum.text_ne (Ne.symm h)) vs.entries

lemma keys_bind {ns : List Name} (h : vs.keys = ns.map .text) (n : Name) (v : Value) :
    (vs.bind (.text n) v).keys = (if n ∈ ns then ns else ns ++ [n]).map .text := by
  have hany : (vs.entries.any fun p => p.1 == .text n) = (ns.any fun m => m == n) := by
    have hmap : (vs.entries.any fun p => p.1 == .text n) = vs.keys.any fun k => k == .text n := by
      rw [keys, List.any_map]
      rfl
    rw [hmap, h, List.any_map]
    rfl
  have hkeys : vs.entries.map Prod.fst = ns.map .text := h
  rw [keys, bind, Keyed.keys_put, hany, hkeys]
  by_cases hn : n ∈ ns <;> simp [hn]

lemma keys_remove {ns : List Name} (h : vs.keys = ns.map .text) (n : Name) :
    (vs.remove (.text n)).keys = (ns.filter fun m => m ≠ n).map .text := by
  have hkeys : vs.entries.map Prod.fst = ns.map .text := h
  have hfilter : (Keyed.erase (.text n) vs.entries).map Prod.fst =
      (vs.entries.map Prod.fst).filter fun k => !(k == .text n) := by
    rw [Keyed.erase, List.filter_map]
    rfl
  rw [keys, remove, hfilter, hkeys, List.filter_map]
  congr 2
  funext m
  simp [Datum.text_beq_text, beq_eq_decide]

/-- Setting fails exactly if nothing can be made of the datum. -/
lemma set_eq_error_iff {k d : Datum} {e : Error} :
    vs.set k d = .error e ↔ d.toValue false = .error e := by
  rw [set]
  split_ifs with hd
  · simp [Datum.toValue_of_isNull hd]
  · rcases d.toValue false with e' | v <;> simp [Except.map]

lemma makesValue_of_set {k d : Datum} {ws : Variables} (h : vs.set k d = .ok ws) :
    d.makesValue = true := by
  by_contra hfalse
  obtain ⟨e, he⟩ := Datum.makesValue_eq_false_iff.mp (Bool.eq_false_iff.mpr hfalse)
  rw [set_eq_error_iff.mpr he] at h
  cases h

lemma makesValue_of_set_error {k d : Datum} {e : Error} (h : vs.set k d = .error e) :
    d.makesValue = false :=
  Datum.makesValue_eq_false_iff.mpr ⟨e, set_eq_error_iff.mp h⟩

/-- **Setting a name** gives it the value of the datum and leaves every other name alone. -/
theorem set_of_ok (vs : Variables) {d : Datum} {v : Value} (h : d.toValue false = .ok v)
    (n : Name) :
    ∃ ws, vs.set (.text n) d = .ok ws ∧ ∀ n', ws.get n' = if n' = n then v else vs.get n' := by
  rcases hd : d.isNull with _ | _
  · refine ⟨vs.bind (.text n) v, by rw [set, hd, h]; rfl, fun n' => ?_⟩
    rw [get, get, get?_bind]
    split_ifs <;> rfl
  · rw [Datum.toValue_of_isNull hd, Except.ok.injEq] at h
    subst h
    refine ⟨vs.remove (.text n), by rw [set, hd]; rfl, fun n' => ?_⟩
    rw [get, get, get?_remove]
    split_ifs <;> rfl

/-- Setting another key does not matter to the value of a name. -/
lemma get_of_set_ne {k d : Datum} {ws : Variables} (h : vs.set k d = .ok ws) {n : Name}
    (hk : k ≠ .text n) : ws.get n = vs.get n := by
  have hexact := Datum.exact_text n
  rw [set] at h
  split_ifs at h
  · cases h
    rw [get, get, get?, get?, remove, Keyed.lookup_erase_of_ne hexact hk]
  · rcases hv : d.toValue false with e | v <;> rw [hv] at h <;> cases h
    rw [get, get, get?, get?, bind, Keyed.lookup_put_of_ne hexact hk]

/-- The items of a mapping, set in turn. -/
def setEach (vs : Variables) (es : List (Datum × Datum)) : Except Error Variables :=
  es.foldlM (fun vs e => vs.set e.1 e.2) vs

lemma setEach_cons_ok {e : Datum × Datum} {es : List (Datum × Datum)} {ws : Variables}
    (h : vs.set e.1 e.2 = .ok ws) : vs.setEach (e :: es) = ws.setEach es := by
  rw [setEach, List.foldlM_cons, h]
  rfl

lemma setEach_cons_error {x : Datum × Datum} {es : List (Datum × Datum)} {e : Error}
    (h : vs.set x.1 x.2 = .error e) : vs.setEach (x :: es) = .error e := by
  rw [setEach, List.foldlM_cons, h]
  rfl

/-- **A mapping is added** item by item: all items are set, or those before the first that fails. -/
theorem addAll_cases (vs : Variables) (es : List (Datum × Datum)) :
    (∃ ws, vs.setEach es = .ok ws ∧ vs.addAll es = (ws, none)) ∨
      ∃ u x z ws e, es = u ++ x :: z ∧ vs.setEach u = .ok ws ∧ ws.set x.1 x.2 = .error e ∧
        vs.setEach es = .error e ∧ vs.addAll es = (ws, some e) := by
  induction es generalizing vs with
  | nil => exact .inl ⟨vs, rfl, rfl⟩
  | cons x es ih =>
    rcases hx : vs.set x.1 x.2 with e | ws
    · exact .inr ⟨[], x, es, vs, e, rfl, rfl, hx, setEach_cons_error hx, by rw [addAll, hx]⟩
    · have hadd : vs.addAll (x :: es) = ws.addAll es := by rw [addAll, hx]
      rw [hadd, setEach_cons_ok hx]
      rcases ih ws with h | ⟨u, y, z, ws', e, rfl, hu, hy, hes, h⟩
      · exact .inl h
      · exact .inr ⟨x :: u, y, z, ws', e, rfl, by rw [setEach_cons_ok hx, hu], hy, hes, h⟩

lemma ofEntries_eq (es : List (Datum × Datum)) : ofEntries es = empty.setEach es := by
  rcases addAll_cases empty es with ⟨ws, hes, h⟩ | ⟨-, -, -, ws, e, -, -, -, hes, h⟩
  · simp only [ofEntries, h, hes]
  · simp only [ofEntries, h, hes]

/-- Where all items are set, something could be made of each. -/
lemma makesValue_of_setEach {es : List (Datum × Datum)} {ws : Variables}
    (h : vs.setEach es = .ok ws) : ∀ e ∈ es, e.2.makesValue = true := by
  induction es generalizing vs with
  | nil => simp
  | cons x es ih =>
    rcases hx : vs.set x.1 x.2 with e | us
    · rw [setEach_cons_error hx] at h
      cases h
    · rw [setEach_cons_ok hx] at h
      exact List.forall_mem_cons.mpr ⟨makesValue_of_set hx, ih h⟩

/-- **Names that are different**, set in any order, have the values of their data. -/
theorem get_setEach {m : List (Name × Datum)} (hm : (m.map Prod.fst).Nodup)
    (hv : ∀ p ∈ m, p.2.makesValue = true) (vs : Variables) :
    ∃ ws, vs.setEach (textKeys m) = .ok ws ∧ (∀ p ∈ m, p.2.toValue false = .ok (ws.get p.1)) ∧
      ∀ n ∉ m.map Prod.fst, ws.get n = vs.get n := by
  induction m generalizing vs with
  | nil => exact ⟨vs, rfl, by simp, by simp⟩
  | cons p m ih =>
    obtain ⟨hp, hm⟩ := List.nodup_cons.mp hm
    obtain ⟨v, hpv⟩ := Datum.makesValue_iff.mp (hv p (by simp))
    obtain ⟨ws, hws, hget⟩ := set_of_ok vs hpv p.1
    obtain ⟨ws', hws', hm', hrest⟩ := ih hm (fun q hq => hv q (List.mem_cons_of_mem _ hq)) ws
    refine ⟨ws', (setEach_cons_ok hws).trans hws', ?_, ?_⟩
    · intro q hq
      rcases List.mem_cons.mp hq with rfl | hq
      · rw [hrest _ hp, hget, if_pos rfl, hpv]
      · exact hm' q hq
    · intro n hn
      rw [List.map_cons, List.mem_cons, not_or] at hn
      rw [hrest n hn.2, hget, if_neg hn.1]

end Variables

end UriTemplate

import UriTemplate.Proofs.Queries
import UriTemplate.Proofs.Binding
import UriTemplate.Proofs.Dependence

/-!
What queries bind. Each piece of a query that is not empty says a name and a value. The names are
bound in the order in which they first occur, each to all its values, so that two queries with an
ampersand between them bind what both of them say, the first one first. Octets that are no character
are replaced, and no surrogate comes of a query that has none.
-/

namespace UriTemplate

/-! ### Pieces -/

namespace Text

variable {sep : CodePoint}

lemma exists_pieces (sep : CodePoint) (s : Text) : ∃ p ps, pieces sep s = p :: ps := by
  induction s with
  | nil => exact ⟨[], [], rfl⟩
  | cons c s ih =>
    obtain ⟨p, ps, h⟩ := ih
    by_cases hc : c = sep
    · exact ⟨[], p :: ps, by rw [pieces, if_pos hc, h]⟩
    · exact ⟨c :: p, ps, pieces_cons_of_ne hc h⟩

/-- A separator between two texts separates their pieces. -/
lemma pieces_separated (s t : Text) : pieces sep (s ++ sep :: t) = pieces sep s ++ pieces sep t := by
  induction s with
  | nil => exact pieces_append List.not_mem_nil t
  | cons c s ih =>
    obtain ⟨p, ps, h⟩ := exists_pieces sep s
    rw [h, List.cons_append] at ih
    by_cases hc : c = sep
    · rw [List.cons_append, pieces, if_pos hc, pieces, if_pos hc, ih, h]
      rfl
    · rw [List.cons_append, pieces_cons_of_ne hc ih, pieces_cons_of_ne hc h]
      rfl

lemma intercalate_pieces (s : Text) : [sep].intercalate (pieces sep s) = s := by
  induction s with
  | nil => rfl
  | cons c s ih =>
    obtain ⟨p, ps, h⟩ := exists_pieces sep s
    rw [h] at ih
    by_cases hc : c = sep
    · rw [pieces, if_pos hc, h, List.intercalate_cons_cons, ih, hc]
      rfl
    · rw [pieces_cons_of_ne hc h]
      rcases ps with _ | ⟨p', ps⟩
      · rw [List.intercalate_singleton] at ih ⊢
        rw [ih]
      · rw [List.intercalate_cons_cons] at ih ⊢
        rw [List.cons_append, List.cons_append, ih]

/-- What is in a piece is in the text, and is no separator. -/
lemma mem_pieces {s p : Text} (hp : p ∈ pieces sep s) {c : CodePoint} (hc : c ∈ p) :
    c ∈ s ∧ c ≠ sep := by
  induction s generalizing p with
  | nil =>
    obtain rfl := List.mem_singleton.mp hp
    cases hc
  | cons d s ih =>
    obtain ⟨p', ps, h⟩ := exists_pieces sep s
    rw [h] at ih
    by_cases hd : d = sep
    · rw [pieces, if_pos hd, h] at hp
      rcases List.mem_cons.mp hp with rfl | hp
      · cases hc
      · exact (ih hp hc).imp_left (List.mem_cons_of_mem d)
    · rw [pieces_cons_of_ne hd h] at hp
      rcases List.mem_cons.mp hp with rfl | hp
      · rcases List.mem_cons.mp hc with rfl | hc
        · exact ⟨by simp, hd⟩
        · exact (ih List.mem_cons_self hc).imp_left (List.mem_cons_of_mem d)
      · exact (ih (List.mem_cons_of_mem _ hp) hc).imp_left (List.mem_cons_of_mem d)

end Text

/-! ### What a query says -/

namespace Query

/-- A piece says a name and a value, which stand before its first equals sign and after it; without
an equals sign the value is empty. -/
inductive Says : Text → Text × Text → Prop where
  | valued {u : Text} (h : .ofChar '=' ∉ u) (v : Text) :
    Says (u ++ .ofChar '=' :: v) (decode u, decode v)
  | blank {u : Text} (h : .ofChar '=' ∉ u) : Says u (decode u, [])

/-- The pieces of a query between its ampersands, but for those that are empty, say some names and
values in turn. -/
def SaysAll (q : Text) (ps : List (Text × Text)) : Prop :=
  ∃ ws, ws ≠ [] ∧ (∀ w ∈ ws, .ofChar '&' ∉ w) ∧ [.ofChar '&'].intercalate ws = q ∧
    List.Forall₂ Says (ws.filter fun w => w ≠ []) ps

lemma says_iff {w : Text} {p : Text × Text} :
    Says w p ↔ (decode (w.cutAt '=').1, decode (w.cutAt '=').2) = p := by
  constructor
  · rintro (⟨h, v⟩ | h)
    · rw [Text.cutAt_append h]
    · rw [Text.cutAt_of_not_mem h]
      rfl
  · rintro rfl
    by_cases h : .ofChar '=' ∈ w
    · obtain ⟨u, v, rfl, hu⟩ := List.eq_append_cons_of_mem h
      rw [Text.cutAt_append hu]
      exact .valued hu v
    · rw [Text.cutAt_of_not_mem h]
      exact .blank h

/-- **What a query says** is what is read from it. -/
theorem saysAll_iff {q : Text} {ps : List (Text × Text)} : SaysAll q ps ↔ ps = pairs q := by
  have hmeans : Says = fun w p => (decode (w.cutAt '=').1, decode (w.cutAt '=').2) = p := by
    funext w p
    exact propext says_iff
  have hread : ∀ ws : List Text, List.Forall₂ Says ws ps ↔
      ws.map (fun w => (decode (w.cutAt '=').1, decode (w.cutAt '=').2)) = ps := by
    intro ws
    rw [hmeans, ← List.forall₂_map_left_iff, List.forall₂_eq_eq_eq]
  have hfilter : ∀ ws : List Text,
      (ws.filter fun w => !w.isEmpty) = ws.filter fun w => w ≠ [] := fun ws =>
    List.filter_congr fun w _ => by cases w <;> rfl
  rw [pairs, hfilter]
  constructor
  · rintro ⟨ws, hne, hsep, rfl, h⟩
    rw [Text.pieces_intercalate hne hsep]
    exact ((hread _).mp h).symm
  · rintro rfl
    obtain ⟨w, ws, h⟩ := Text.exists_pieces '&' q
    refine ⟨q.pieces '&', by simp [h], fun p hp hmem => ?_, Text.intercalate_pieces q,
      (hread _).mpr rfl⟩
    exact (Text.mem_pieces hp hmem).2 rfl

/-- **Two queries** with an ampersand between them say what both of them say. -/
theorem pairs_append (q q' : Text) : pairs (q ++ .ofChar '&' :: q') = pairs q ++ pairs q' := by
  simp only [pairs, Text.pieces_separated, List.filter_append, List.map_append]

/-! ### Values by names -/

/-- All values of a name, in order. -/
def valuesOf (ps : List (Text × Text)) (n : Name) : List Text :=
  (ps.filter fun p => p.1 == n).map Prod.snd

lemma valuesOf_append (ps ps' : List (Text × Text)) (n : Name) :
    valuesOf (ps ++ ps') n = valuesOf ps n ++ valuesOf ps' n := by
  simp only [valuesOf, List.filter_append, List.map_append]

lemma mem_valuesOf {ps : List (Text × Text)} {n : Name} {t : Text} :
    t ∈ valuesOf ps n ↔ (n, t) ∈ ps := by
  simp [valuesOf]

lemma valuesOf_eq_nil {ps : List (Text × Text)} {n : Name} :
    valuesOf ps n = [] ↔ n ∉ ps.map Prod.fst := by
  simp [List.eq_nil_iff_forall_not_mem, mem_valuesOf]

lemma grouped_eq (ps : List (Text × Text)) :
    grouped ps = (ps.map Prod.fst).eraseDups.map fun n => (n, valuesOf ps n) := rfl

end Query

/-- Of what is kept of a list, the first occurrences are those first occurrences that are kept. -/
lemma eraseDups_filter (p : Name → Bool) (l : List Name) :
    (l.filter p).eraseDups = l.eraseDups.filter p := by
  -- from the end, where an occurrence is a first one or not
  induction l using List.reverseRecOn with
  | nil => rfl
  | append_singleton l n ih =>
    rw [List.filter_append, List.eraseDups_append, List.eraseDups_append, List.filter_append, ih]
    by_cases hp : p n <;> by_cases hn : n ∈ l <;>
      simp [List.removeAll, List.eraseDups_cons, hp, hn]

/-- After the first occurrences in one list come those of the names that are new in another. -/
lemma eraseDups_append_eq (l l' : List Name) :
    (l ++ l').eraseDups = l.eraseDups ++ l'.eraseDups.filter fun n => n ∉ l.eraseDups := by
  have hnew : l'.removeAll l = l'.filter fun n => n ∉ l.eraseDups := by
    rw [List.removeAll]
    exact List.filter_congr fun n _ => by simp
  rw [List.eraseDups_append, hnew, eraseDups_filter]

/-! ### Surrogates -/

namespace Utf8

/-- A reader stands where some octets have led it from the boundary, which complete nothing yet. -/
def State.Reached (q : State) : Prop :=
  ∃ bs, ∀ r, complete? .boundary (bs ++ r) = complete? q r

lemma reached_boundary : State.Reached .boundary := ⟨[], fun _ => rfl⟩

variable {q q' : State} {b : UInt8}

lemma State.Reached.next (hq : q.Reached) (h : step q b = .next q') : q'.Reached := by
  obtain ⟨bs, hbs⟩ := hq
  refine ⟨bs ++ [b], fun r => ?_⟩
  rw [List.append_assoc, List.singleton_append, hbs, complete?, h]

/-- What is completed is no surrogate. -/
lemma State.Reached.done (hq : q.Reached) {c : CodePoint} (h : step q b = .done c) :
    c.isSurrogate = false := by
  obtain ⟨bs, hbs⟩ := hq
  have hc : complete? .boundary (bs ++ [b]) = some c := by
    rw [hbs, complete?, h]
    rfl
  exact (eq_encode_of_complete? hc).1

lemma isSurrogate_replacement : replacement.isSurrogate = false := rfl

/-- An octet settles no surrogate. -/
lemma feed_reached (hq : q.Reached) (b : UInt8) :
    (∀ c ∈ (feed q b).1, c.isSurrogate = false) ∧ (feed q b).2.Reached := by
  unfold feed
  rcases hs : step q b with c | q' | _
  · simp [hq.done hs, reached_boundary]
  · simp [hq.next hs]
  · rcases q with _ | ⟨more, bits, low, high⟩
    · simp [isSurrogate_replacement, reached_boundary]
    · rcases hb : step .boundary b with c | q' | _
      · simp [reached_boundary.done hb, isSurrogate_replacement, reached_boundary]
      · simp [reached_boundary.next hb, isSurrogate_replacement]
      · simp [isSurrogate_replacement, reached_boundary]

/-- What an octet settles, before what has no surrogate either. -/
lemma scalars_feed_append (hq : q.Reached) (b : UInt8) {t : Text}
    (ht : (feed q b).2.Reached → ∀ c ∈ t, c.isSurrogate = false) :
    ∀ c ∈ (feed q b).1 ++ t, c.isSurrogate = false := by
  obtain ⟨hr, hreached⟩ := feed_reached hq b
  exact List.forall_mem_append.mpr ⟨hr, ht hreached⟩

lemma isSurrogate_of_mem_flush (q : State) : ∀ c ∈ flush q, c.isSurrogate = false := by
  cases q <;> simp [flush, isSurrogate_replacement]

end Utf8

namespace Query

open Utf8 (isSurrogate_of_mem_flush reached_boundary scalars_feed_append)

lemma scalars_decodeFrom {q : Utf8.State} (hq : q.Reached) {s : Text}
    (hs : ∀ c ∈ s, c.isSurrogate = false) : ∀ c ∈ decodeFrom q s, c.isSurrogate = false := by
  fun_induction decodeFrom q s with
  | case1 q p a b s _ r ih =>
    exact scalars_feed_append hq (Percent.octet a b) fun hr =>
      ih hr fun c hc => hs c (by simp [hc])
  | case2 q p a b s _ _ r ih =>
    exact scalars_feed_append hq p.val.toUInt8 fun hr =>
      ih hr fun c hc => hs c (List.mem_cons_of_mem _ hc)
  | case3 q p a b s _ _ ih =>
    obtain ⟨hp, hrest⟩ := List.forall_mem_cons.mp hs
    exact List.forall_mem_append.mpr ⟨isSurrogate_of_mem_flush q,
      List.forall_mem_cons.mpr ⟨hp, ih reached_boundary hrest⟩⟩
  | case4 q p s _ _ r ih =>
    exact scalars_feed_append hq p.val.toUInt8 fun hr =>
      ih hr fun c hc => hs c (List.mem_cons_of_mem _ hc)
  | case5 q p s _ _ ih =>
    obtain ⟨hp, hrest⟩ := List.forall_mem_cons.mp hs
    exact List.forall_mem_append.mpr ⟨isSurrogate_of_mem_flush q,
      List.forall_mem_cons.mpr ⟨hp, ih reached_boundary hrest⟩⟩
  | case6 q => exact isSurrogate_of_mem_flush q

lemma scalars_decode {s : Text} (hs : ∀ c ∈ s, c.isSurrogate = false) :
    ∀ c ∈ decode s, c.isSurrogate = false := by
  refine scalars_decodeFrom reached_boundary fun c hc => ?_
  obtain ⟨d, hd, rfl⟩ := List.mem_map.mp hc
  split_ifs
  · exact Utf8.isSurrogate_ofChar ' '
  · exact hs d hd

lemma Says.scalars {w : Text} {p : Text × Text} (h : Says w p)
    (hw : ∀ c ∈ w, c.isSurrogate = false) : ∀ c ∈ p.1 ++ p.2, c.isSurrogate = false := by
  cases h with
  | valued _ v =>
    obtain ⟨hu, hv⟩ := List.forall_mem_append.mp hw
    exact List.forall_mem_append.mpr
      ⟨scalars_decode hu, scalars_decode (List.forall_mem_cons.mp hv).2⟩
  | blank => exact List.forall_mem_append.mpr ⟨scalars_decode hw, by simp⟩

/-- No surrogate comes of a query that has none. -/
lemma scalars_pairs {q : Text} (hq : ∀ c ∈ q, c.isSurrogate = false) :
    ∀ p ∈ pairs q, ∀ c ∈ p.1 ++ p.2, c.isSurrogate = false := by
  intro p hp
  obtain ⟨w, hw, hwp⟩ := List.mem_map.mp hp
  have hw := (List.mem_filter.mp hw).1
  exact (says_iff.mpr hwp).scalars fun c hc => hq c (Text.mem_pieces hw hc).1

end Query

/-! ### Bindings -/

namespace Variables

open Query

lemma entries_ofQuery (q : Text) : (ofQuery q).entries =
    textKeys (((pairs q).map Prod.fst).eraseDups.map fun n =>
      (n, valueOf (valuesOf (pairs q) n))) := by
  have hd : ((grouped (pairs q)).map Prod.fst).Nodup := by
    rw [grouped_eq, List.map_map]
    exact (List.map_id _).symm ▸ (firstUses_eraseDups _).nodup
  rw [ofQuery, entries_ofMultimap hd, grouped_eq, textKeys, List.map_map, List.map_map]
  rfl

/-- The names of a query, in the order in which they first occur. -/
lemma keys_ofQuery (q : Text) :
    (ofQuery q).keys = ((pairs q).map Prod.fst).eraseDups.map .text := by
  rw [keys, entries_ofQuery, textKeys, List.map_map, List.map_map]
  rfl

/-- A name of a query is bound to its only value, or to the list of all its values. -/
lemma get?_ofQuery (q : Text) (n : Name) :
    (ofQuery q).get? n =
      match valuesOf (pairs q) n with
      | [] => none
      | [t] => some (.scalar t)
      | ts => some (.list ts) := by
  have hmem : n ∈ ((pairs q).map Prod.fst).eraseDups ↔ valuesOf (pairs q) n ≠ [] := by
    rw [List.mem_eraseDups, ne_eq, valuesOf_eq_nil, not_not]
  rw [get?, entries_ofQuery, lookup_textKeys, lookup_map_mk]
  simp only [hmem]
  rcases valuesOf (pairs q) n with _ | ⟨t, _ | ⟨u, ts⟩⟩ <;> simp [valueOf]

lemma listOf_ofQuery (q : Text) (n : Name) : (ofQuery q).listOf n = valuesOf (pairs q) n := by
  rw [listOf, get?_ofQuery]
  rcases valuesOf (pairs q) n with _ | ⟨t, _ | ⟨u, ts⟩⟩ <;> rfl

/-- The names of two queries, those of the first one first. -/
lemma keys_ofQuery_append (q q' : Text) : ∃ ns ns' : List Name,
    (ofQuery q).keys = ns.map .text ∧ (ofQuery q').keys = ns'.map .text ∧
      (ofQuery (q ++ .ofChar '&' :: q')).keys = (ns ++ ns'.filter fun n => n ∉ ns).map .text := by
  refine ⟨_, _, keys_ofQuery q, keys_ofQuery q', ?_⟩
  rw [keys_ofQuery, pairs_append, List.map_append, eraseDups_append_eq]

/-- What is bound of a query without surrogates has none. -/
lemma scalars_ofQuery {q : Text} (hq : ∀ c ∈ q, c.isSurrogate = false) {n : Name}
    (hn : (ofQuery q).contains n = true) :
    ∀ t ∈ n :: (ofQuery q).listOf n, ∀ c ∈ t, c.isSurrogate = false := by
  have hpair : ∀ t ∈ valuesOf (pairs q) n, ∀ c ∈ n ++ t, c.isSurrogate = false :=
    fun t ht => scalars_pairs hq (n, t) (mem_valuesOf.mp ht)
  have hne : valuesOf (pairs q) n ≠ [] := by
    intro h
    simp [contains, get?_ofQuery, h] at hn
  obtain ⟨t, ht⟩ := List.exists_mem_of_ne_nil _ hne
  rw [listOf_ofQuery, List.forall_mem_cons]
  exact ⟨(List.forall_mem_append.mp (hpair t ht)).1,
    fun t ht => (List.forall_mem_append.mp (hpair t ht)).2⟩

/-- **Queries lose nothing.** The names that a query says are bound, in the order in which they
first occur: a name that occurs once to its value, one that occurs more often to the list of all its
values in order. Two queries with an ampersand between them bind the names of the first one and then
the new names of the second one, each to its values in the first one and then those in the second
one. A query without surrogates binds none. -/
theorem ofQuery_grouped (q : Text) :
    let ps := pairs q
    let vs := ofQuery q
    (∀ ps', SaysAll q ps' ↔ ps' = ps) ∧
      (∃ ns, vs.keys = ns.map .text ∧ FirstUses (ps.map Prod.fst) ns) ∧
      (∀ n, vs.listOf n = valuesOf ps n ∧
        vs.get? n = match valuesOf ps n with
          | [] => none
          | [t] => some (.scalar t)
          | ts => some (.list ts)) ∧
      (∀ n x, vs.get? n = some x → (∃ t, x = .scalar t) ∨ ∃ ts, x = .list ts ∧ 2 ≤ ts.length) ∧
      (∀ q', let both := ofQuery (q ++ .ofChar '&' :: q')
        (∃ ns ns' : List Name, vs.keys = ns.map .text ∧ (ofQuery q').keys = ns'.map .text ∧
          both.keys = (ns ++ ns'.filter fun n => n ∉ ns).map .text) ∧
        ∀ n, both.listOf n = vs.listOf n ++ (ofQuery q').listOf n) ∧
      ((∀ c ∈ q, c.isSurrogate = false) → ∀ n, vs.contains n = true →
        ∀ t ∈ n :: vs.listOf n, ∀ c ∈ t, c.isSurrogate = false) := by
  intro ps vs
  refine ⟨fun ps' => saysAll_iff, ⟨_, keys_ofQuery q, firstUses_eraseDups _⟩,
    fun n => ⟨listOf_ofQuery q n, get?_ofQuery q n⟩, fun n x hx => ?_,
    fun q' => ⟨keys_ofQuery_append q q', fun n => ?_⟩, fun hq n hn => scalars_ofQuery hq hn⟩
  · rw [get?_ofQuery] at hx
    generalize valuesOf (pairs q) n = ts at hx
    rcases ts with _ | ⟨t, _ | ⟨u, ts⟩⟩ <;> cases hx
    · exact .inl ⟨t, rfl⟩
    · exact .inr ⟨_, rfl, by simp⟩
  · rw [listOf_ofQuery, listOf_ofQuery, listOf_ofQuery, pairs_append, valuesOf_append]

/-- Two spellings of a name, an empty piece, a name alone, and octets that would be a surrogate. -/
theorem ofQuery_grouped_spellings :
    let q := lit "a=1&&%61=%ED%A0%80&b"
    let vs := ofQuery q
    (∀ c ∈ q, c.isSurrogate = false) ∧ vs.get? (lit "b") = some (.scalar []) ∧
      vs.get? (lit "a") = some (.list [lit "1", List.replicate 3 Utf8.replacement]) ∧
      (∀ t ∈ lit "a" :: vs.listOf (lit "a"), ∀ c ∈ t, c.isSurrogate = false) ∧
      (ofQuery (q ++ lit "&b=2&%62=3")).listOf (lit "b") = [[], lit "2", lit "3"] := by
  intro q vs
  obtain ⟨-, -, hvalues, -, hboth, hscalars⟩ := ofQuery_grouped q
  have hq : ∀ c ∈ q, c.isSurrogate = false := by decide +kernel
  have ha : valuesOf (pairs q) (lit "a") = [lit "1", List.replicate 3 Utf8.replacement] := by
    decide +kernel
  have hb : valuesOf (pairs q) (lit "b") = [[]] := by decide +kernel
  refine ⟨hq, ?_, ?_, hscalars hq (lit "a") ?_, ?_⟩
  · rw [(hvalues _).2, hb]
  · rw [(hvalues _).2, ha]
  · rw [contains, (hvalues _).2, ha]
    rfl
  · refine ((hboth (lit "b=2&%62=3")).2 (lit "b")).trans ?_
    rw [(hvalues _).1, hb]
    decide +kernel

end Variables

end UriTemplate

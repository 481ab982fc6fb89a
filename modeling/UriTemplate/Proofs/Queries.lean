import UriTemplate.Proofs.Units
import UriTemplate.Binding.Variables

/-!
Reading queries. Names and values that are encoded, paired and put between ampersands are found
again; pairs that belong together by their names are grouped as they were; and names that are all
different are bound as they stand, in order.
-/

namespace UriTemplate

namespace Query

open Percent

/-! ### Names and values -/

lemma feed_ascii {c : CodePoint} (h : c.isAscii = true) :
    Utf8.feed .boundary c.val.toUInt8 = ([c], .boundary) := by
  have hlt : c.val < 0x80 := by simpa [CodePoint.isAscii] using h
  simp only [Utf8.feed, Utf8.step]
  rw [Utf8.toNat_toUInt8 (by omega), Utf8.first_one hlt (by omega)]

lemma decodeFrom_ascii {c : CodePoint} (h : c.isAscii = true) (hp : c ≠ '%') (s : Text) :
    decodeFrom .boundary (c :: s) = c :: decodeFrom .boundary s := by
  match s with
  | [] => simp [decodeFrom, h, feed_ascii h]
  | [_] => simp [decodeFrom, h, feed_ascii h]
  | a :: b :: s => simp [decodeFrom, h, feed_ascii h, isTriplet, hp]

lemma decodeFrom_triplet (q : Utf8.State) (b : UInt8) (s : Text) :
    decodeFrom q (triplet b ++ s) = (Utf8.feed q b).1 ++ decodeFrom (Utf8.feed q b).2 s := by
  simp only [triplet, List.cons_append, List.nil_append, decodeFrom]
  rw [if_pos (isTriplet_triplet b), octet_hexUpper]

/-- The triplets of octets that complete a character are read as the character. -/
lemma decodeFrom_triplets {q : Utf8.State} {bs : List UInt8} {c : CodePoint}
    (h : Utf8.complete? q bs = some c) (s : Text) :
    decodeFrom q (bs.flatMap triplet ++ s) = c :: decodeFrom .boundary s := by
  induction bs generalizing q with
  | nil => simp [Utf8.complete?] at h
  | cons b bs ih =>
    rw [List.flatMap_cons, List.append_assoc, decodeFrom_triplet]
    simp only [Utf8.complete?] at h
    rcases hs : Utf8.step q b with d | q' | _ <;> rw [hs] at h <;> simp only [reduceCtorEq] at h
    · split_ifs at h with hb
      cases h
      subst hb
      simp [Utf8.feed, hs]
    · simp [Utf8.feed, hs, ih h]

lemma decodeFrom_encodeChar {c : CodePoint} (h : c.isSurrogate = false) (s : Text) :
    decodeFrom .boundary (encodeChar CharClass.unreserved.admits c ++ s) =
      c :: decodeFrom .boundary s := by
  rw [encodeChar_eq]
  split_ifs with hc
  · refine decodeFrom_ascii (CharClass.isAscii_of_unreserved hc) ?_ s
    rintro rfl
    simp [CharClass.unreserved_percent] at hc
  · exact decodeFrom_triplets (Utf8.complete?_encode h) s

lemma not_mem_encode {d : CodePoint} (hd : CharClass.unreserved.admits d = false) (hp : d ≠ '%')
    (s : Text) : d ∉ encode false CharClass.unreserved.admits s :=
  (spelled_encode (fun _ => CharClass.unreserved_of_hexDigit) false s).not_mem hd hp

/-- **What is encoded is read back.** No plus sign is left in it that would be read as a space. -/
theorem decode_encode {s : Text} (h : ∀ c ∈ s, c.isSurrogate = false) :
    decode (encode false CharClass.unreserved.admits s) = s := by
  have hplus : CodePoint.ofChar '+' ∉ encode false CharClass.unreserved.admits s :=
    not_mem_encode (by decide) (by decide) s
  have hmap : (encode false CharClass.unreserved.admits s).map
      (fun c : CodePoint => if c = '+' then .ofChar ' ' else c) =
        encode false CharClass.unreserved.admits s := by
    refine (List.map_congr_left fun c hc => if_neg ?_).trans (List.map_id _)
    rintro rfl
    exact hplus hc
  rw [decode, hmap, encode_false]
  clear hplus hmap
  induction s with
  | nil => rfl
  | cons c s ih =>
    rw [List.flatMap_cons, decodeFrom_encodeChar (h c (by simp)),
      ih fun d hd => h d (List.mem_cons_of_mem _ hd)]

/-! ### Pairs -/

/-- A name and a value as a query has them. -/
def written (e : Text × Text) : Text :=
  Operator.pair (encode false CharClass.unreserved.admits e.1)
    (encode false CharClass.unreserved.admits e.2)

lemma ampersand_not_mem_written (e : Text × Text) : .ofChar '&' ∉ written e := by
  have hand : CharClass.unreserved.admits '&' = false := by decide
  have hne : CodePoint.ofChar '&' ≠ '=' := by decide
  simp [written, Operator.pair, not_mem_encode hand (by decide), hne]

/-- **Pairs between ampersands** are read back. -/
theorem pairs_intercalate {es : List (Text × Text)}
    (h : ∀ e ∈ es, ∀ c ∈ e.1 ++ e.2, c.isSurrogate = false) :
    pairs ([.ofChar '&'].intercalate (es.map written)) = es := by
  have hread : ∀ e ∈ es,
      (decode ((written e).cutAt '=').1, decode ((written e).cutAt '=').2) = e := by
    intro e he
    have hn : ∀ c ∈ e.1, c.isSurrogate = false :=
      fun c hc => h e he c (List.mem_append_left _ hc)
    have hv : ∀ c ∈ e.2, c.isSurrogate = false :=
      fun c hc => h e he c (List.mem_append_right _ hc)
    have heq : CharClass.unreserved.admits '=' = false := CharClass.unreserved_equals
    rw [written, Operator.pair, Text.cutAt_append (not_mem_encode heq (by decide) _),
      decode_encode hn, decode_encode hv]
  rcases es with _ | ⟨e, es⟩
  · rfl
  · have hsep : ∀ p ∈ (e :: es).map written, .ofChar '&' ∉ p := by
      intro p hp
      obtain ⟨e, -, rfl⟩ := List.mem_map.mp hp
      exact ampersand_not_mem_written e
    have hne : ∀ p ∈ (e :: es).map written, (!p.isEmpty) = true := by
      intro p hp
      obtain ⟨e, -, rfl⟩ := List.mem_map.mp hp
      simp [written, Operator.pair]
    rw [pairs, Text.pieces_intercalate (by simp) hsep, List.filter_eq_self.mpr hne, List.map_map]
    exact (List.map_congr_left hread).trans (List.map_id _)

/-- An ampersand in front changes nothing. -/
lemma pairs_ampersand (s : Text) : pairs (.ofChar '&' :: s) = pairs s := by
  simp [pairs, Text.pieces]

/-! ### Groups -/

/-- The pairs of names that have any number of values each. -/
def spread (m : List (Name × List Text)) : List (Text × Text) :=
  m.flatMap fun e => e.2.map fun t => (e.1, t)

lemma map_fst_spread_cons (n : Name) (ts : List Text) (m : List (Name × List Text)) :
    (spread ((n, ts) :: m)).map Prod.fst = ts.map (fun _ => n) ++ (spread m).map Prod.fst := by
  simp [spread]

lemma fst_mem_of_mem_spread {m : List (Name × List Text)} {n : Name}
    (h : n ∈ (spread m).map Prod.fst) : n ∈ m.map Prod.fst := by
  obtain ⟨p, hp, rfl⟩ := List.mem_map.mp h
  obtain ⟨e, he, hp⟩ := List.mem_flatMap.mp hp
  obtain ⟨t, -, rfl⟩ := List.mem_map.mp hp
  exact List.mem_map.mpr ⟨e, he, rfl⟩

/-- The names once each, if each has a value. -/
lemma eraseDups_spread {m : List (Name × List Text)} (hd : (m.map Prod.fst).Nodup)
    (hne : ∀ e ∈ m, e.2 ≠ []) : ((spread m).map Prod.fst).eraseDups = m.map Prod.fst := by
  induction m with
  | nil => rfl
  | cons e m ih =>
    obtain ⟨n, _ | ⟨t, ts⟩⟩ := e
    · exact absurd rfl (hne (n, []) (by simp))
    · obtain ⟨hn, hd⟩ := List.nodup_cons.mp hd
      have hrest : (ts.map (fun _ => n) ++ (spread m).map Prod.fst).filter (fun b => !b == n) =
          (spread m).map Prod.fst := by
        have hself : (ts.map (fun _ => n)).filter (fun b => !b == n) = [] := by simp
        rw [List.filter_append, hself, List.nil_append, List.filter_eq_self]
        intro b hb
        have hb := fst_mem_of_mem_spread hb
        have : b ≠ n := by
          rintro rfl
          exact hn hb
        simpa using this
      rw [map_fst_spread_cons, List.map_cons, List.cons_append, List.eraseDups_cons, hrest,
        ih hd fun e he => hne e (List.mem_cons_of_mem _ he), List.map_cons]

/-- The values of a name. -/
lemma filter_spread {m : List (Name × List Text)} (hd : (m.map Prod.fst).Nodup)
    {e : Name × List Text} (he : e ∈ m) :
    ((spread m).filter fun p => p.1 == e.1).map Prod.snd = e.2 := by
  induction m with
  | nil => cases he
  | cons f m ih =>
    obtain ⟨hf, hd⟩ := List.nodup_cons.mp hd
    have hsplit : spread (f :: m) = f.2.map (fun t => (f.1, t)) ++ spread m := rfl
    rw [hsplit, List.filter_append, List.map_append]
    rcases List.mem_cons.mp he with rfl | he
    · have hrest : (spread m).filter (fun p => p.1 == e.1) = [] := by
        rw [List.filter_eq_nil_iff]
        intro p hp heq
        rw [beq_iff_eq] at heq
        exact hf (heq ▸ fst_mem_of_mem_spread (List.mem_map_of_mem hp))
      simp [hrest, List.filter_map, Function.comp_def]
    · have hne : f.1 ≠ e.1 := fun h => hf (h ▸ List.mem_map_of_mem he)
      simp [ih hd he, List.filter_map, Function.comp_def, hne]

/-- **Groups** are found again: names that are different, with one value or more each. -/
theorem grouped_spread {m : List (Name × List Text)} (hd : (m.map Prod.fst).Nodup)
    (hne : ∀ e ∈ m, e.2 ≠ []) : grouped (spread m) = m := by
  rw [grouped, eraseDups_spread hd hne, List.map_map]
  refine (List.map_congr_left fun e he => ?_).trans (List.map_id m)
  exact Prod.ext rfl (filter_spread hd he)

end Query

/-! ### Bindings -/

lemma Keyed.put_absent {κ α : Type} [BEq κ] {k : κ} {m : List (κ × α)}
    (h : ∀ p ∈ m, (p.1 == k) = false) (v : α) : put k v m = m ++ [(k, v)] := by
  induction m with
  | nil => rfl
  | cons p m ih =>
    have hp := h p (by simp)
    simp [put, hp, ih fun q hq => h q (List.mem_cons_of_mem _ hq)]

namespace Variables

lemma entries_foldl_bind {m : List (Name × List Text)} (hd : (m.map Prod.fst).Nodup)
    (vs : Variables) (hvs : ∀ e ∈ m, ∀ p ∈ vs.entries, (p.1 == Datum.text e.1) = false) :
    (m.foldl (fun vs e => vs.bind (.text e.1) (valueOf e.2)) vs).entries =
      vs.entries ++ m.map fun e => (.text e.1, valueOf e.2) := by
  induction m generalizing vs with
  | nil => simp
  | cons e m ih =>
    obtain ⟨he, hd⟩ := List.nodup_cons.mp hd
    have hput : (vs.bind (.text e.1) (valueOf e.2)).entries =
        vs.entries ++ [(.text e.1, valueOf e.2)] :=
      Keyed.put_absent (hvs e (by simp)) _
    rw [List.foldl_cons, ih hd, hput, List.append_assoc, List.singleton_append, List.map_cons]
    intro f hf p hp
    rw [hput] at hp
    rcases List.mem_append.mp hp with hp | hp
    · exact hvs f (List.mem_cons_of_mem _ hf) p hp
    · obtain rfl := List.mem_singleton.mp hp
      have hne : e.1 ≠ f.1 := fun h => he (h ▸ List.mem_map_of_mem hf)
      change (e.1 == f.1) = false
      simpa using hne

/-- **Names that are different** are bound in their order. -/
theorem entries_ofMultimap {m : List (Name × List Text)} (hd : (m.map Prod.fst).Nodup) :
    (ofMultimap m).entries = m.map fun e => (.text e.1, valueOf e.2) := by
  have h := entries_foldl_bind hd empty (by simp [empty])
  rwa [show empty.entries = [] from rfl, List.nil_append] at h

end Variables

end UriTemplate

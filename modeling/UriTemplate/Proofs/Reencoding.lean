import UriTemplate.Proofs.Octets

/-!
Encoding again. A text is settled if a scan finds only triplets and allowed characters in it, and
encoding leaves a settled text alone where triplets are kept. Whatever was encoded is settled,
whether its triplets were kept or not, and stays so where more is allowed: no percent sign of it
begins a triplet with characters of the pieces next to it.
-/

namespace UriTemplate.Percent

/-- The text consists of triplets and allowed characters. -/
inductive Settled (allowed : CodePoint → Bool) : Text → Prop where
  | nil : Settled allowed []
  | triplet {p a b : CodePoint} {s : Text} (h : isTriplet p a b = true)
    (hs : Settled allowed s) : Settled allowed (p :: a :: b :: s)
  | char {c : CodePoint} {s : Text} (h : allowed c = true) (hs : Settled allowed s) :
    Settled allowed (c :: s)

variable {allowed : CodePoint → Bool}

lemma not_tripletAhead (hp : allowed '%' = false) {c : CodePoint} (hc : allowed c = true)
    (s : Text) : ¬ TripletAhead (c :: s) := by
  rintro ⟨p, a, b, r, hs, ht⟩
  obtain ⟨rfl, -, -⟩ := isTriplet_iff.mp ht
  obtain ⟨rfl, -⟩ := List.cons.inj hs
  simp [hp] at hc

namespace Settled

lemma mono {more : CodePoint → Bool} (hm : ∀ c, allowed c = true → more c = true) {s : Text}
    (h : Settled allowed s) : Settled more s := by
  induction h with
  | nil => exact .nil
  | triplet ht _ ih => exact .triplet ht ih
  | char hc _ ih => exact .char (hm _ hc) ih

lemma append {s t : Text} (hs : Settled allowed s) (ht : Settled allowed t) :
    Settled allowed (s ++ t) := by
  induction hs with
  | nil => exact ht
  | triplet h _ ih => exact .triplet h ih
  | char h _ ih => exact .char h ih

end Settled

/-! ### What is written is settled -/

lemma settled_escape (c : CodePoint) : Settled allowed (escape c) := by
  unfold escape
  induction Utf8.encode c with
  | nil => exact .nil
  | cons b bs ih =>
    rw [List.flatMap_cons]
    exact .triplet (isTriplet_triplet b) ih

lemma settled_encodeChar (c : CodePoint) : Settled allowed (encodeChar allowed c) := by
  rw [encodeChar_eq]
  split_ifs with h
  · exact .char h .nil
  · exact settled_escape c

/-- **Whatever was encoded** is settled. -/
theorem settled_encode (keeps : Bool) (s : Text) : Settled allowed (encode keeps allowed s) := by
  fun_induction encode keeps allowed s with
  | case1 p a b s h ih =>
    rw [Bool.and_eq_true] at h
    exact .triplet h.2 ih
  | case2 p a b s _ ih => exact (settled_encodeChar p).append ih
  | case3 p s _ ih => exact (settled_encodeChar p).append ih
  | case4 => exact .nil

/-! ### What is settled is left alone -/

lemma encode_of_settled (hp : allowed '%' = false) {s : Text} (h : Settled allowed s) :
    encode true allowed s = s := by
  induction h with
  | nil => rfl
  | triplet ht _ ih => rw [encode_of_triplet ht, ih]
  | @char c s hc _ ih =>
    rw [encode_of_char (not_tripletAhead hp hc s), encodeChar_eq, if_pos hc, ih,
      List.singleton_append]

lemma length_encodeChar (c : CodePoint) : 1 ≤ (encodeChar allowed c).length ∧
    (allowed c = false → 1 < (encodeChar allowed c).length) := by
  rw [encodeChar_eq]
  split_ifs with h
  · simp [h]
  · have hpos := length_pos_encode c
    rw [length_escape]
    omega

/-- No text gets shorter. -/
lemma length_le_encode (keeps : Bool) (s : Text) :
    s.length ≤ (encode keeps allowed s).length := by
  fun_induction encode keeps allowed s with
  | case1 p a b s _ ih => simpa using ih
  | case2 p a b s _ ih =>
    have hchar := (@length_encodeChar allowed p).1
    rw [List.length_append, List.length_cons]
    omega
  | case3 p s _ ih =>
    have hchar := (@length_encodeChar allowed p).1
    rw [List.length_append, List.length_cons]
    omega
  | case4 => exact Nat.le_refl _

/-- A character that is left as it was is allowed, since it would have grown. -/
lemma allowed_of_encodeChar_append {c : CodePoint} {keeps : Bool} {s : Text}
    (h : encodeChar allowed c ++ encode keeps allowed s = c :: s) :
    allowed c = true ∧ encode keeps allowed s = s := by
  have hlength := congrArg List.length h
  rw [List.length_append, List.length_cons] at hlength
  have hs := @length_le_encode allowed keeps s
  have hc : allowed c = true := by
    by_contra hn
    have hgrown := (@length_encodeChar allowed c).2 (by simpa using hn)
    omega
  rw [encodeChar_eq, if_pos hc] at h
  exact ⟨hc, (List.cons.inj h).2⟩

/-- Where triplets are not kept, encoding leaves alone the texts of allowed characters only. -/
theorem encode_false_eq_self_iff {s : Text} :
    encode false allowed s = s ↔ ∀ c ∈ s, allowed c = true := by
  refine ⟨fun h => ?_, encode_of_forall⟩
  induction s with
  | nil => simp
  | cons c s ih =>
    rw [encode_false_cons] at h
    obtain ⟨hallowed, hs⟩ := allowed_of_encodeChar_append h
    exact List.forall_mem_cons.mpr ⟨hallowed, ih hs⟩

/-! ### Encoding twice -/

/-- **Encoding again changes nothing**: what was encoded with some characters allowed, triplets kept
or not, is left alone by encoding that keeps triplets and allows these characters or more, as long
as none of them is the percent sign. So encoding that keeps triplets does nothing the second time. -/
theorem encode_encode {more : CodePoint → Bool} (hm : ∀ c, allowed c = true → more c = true)
    (hp : more '%' = false) :
    (∀ keeps s, encode true more (encode keeps allowed s) = encode keeps allowed s) ∧
      (∀ s, encode true allowed (encode true allowed s) = encode true allowed s) ∧
      ∀ s, encode true more (encode true more s) = encode true more s := by
  have hp' : allowed '%' = false := by
    by_contra h
    have hpercent := hm '%' (by simpa using h)
    simp [hp] at hpercent
  refine ⟨fun keeps s => ?_, fun s => ?_, fun s => ?_⟩
  · exact encode_of_settled hp ((settled_encode keeps s).mono hm)
  · exact encode_of_settled hp' (settled_encode true s)
  · exact encode_of_settled hp (settled_encode true s)

/-- Neither class has hexadecimal digits, and percent signs stand before triplets and in them. -/
theorem encode_encode_reserved :
    let s : Text := lit "%%41%4/?é=%2" ++ [⟨0xD800, by decide⟩]
    let t : Text := lit "%25%41%25%34%2F%3F%C3%A9=%25%32%ED%A0%80"
    (∀ c, CharClass.subDelim.admits c = true → CharClass.reserved.admits c = true) ∧
      CharClass.reserved.admits '%' = false ∧ encode true CharClass.subDelim.admits s = t ∧
      encode true CharClass.reserved.admits t = t := by
  intro s t
  have hmore : ∀ c, CharClass.subDelim.admits c = true → CharClass.reserved.admits c = true := by
    intro c hc
    simp only [CharClass.admits, CharClass.holds, CharClass.isReserved] at hc ⊢
    simp [hc]
  have hp : CharClass.reserved.admits '%' = false := by decide
  have hs : encode true CharClass.subDelim.admits s = t := by decide
  obtain ⟨h, -⟩ := encode_encode hmore hp
  exact ⟨hmore, hp, hs, hs ▸ h true s⟩

end UriTemplate.Percent

import UriTemplate.Proofs.Boundaries
import UriTemplate.Proofs.Percent

/-!
Octets before and after encoding. A scan goes over a text by triplets and by characters outside
them. Encoding leaves the octets what they were: with triplets kept they are those that the text
stands for, and otherwise those of its own UTF-8 form, so that no two texts are encoded alike. Where
no triplet occurs, and only there, the two are the same.
-/

namespace UriTemplate.Percent

/-- A triplet stands at the front. -/
def TripletAhead (s : Text) : Prop :=
  ∃ p a b r, s = p :: a :: b :: r ∧ isTriplet p a b = true

/-- A triplet occurs somewhere. -/
def HasTriplet (s : Text) : Prop := ∃ l r, s = l ++ r ∧ TripletAhead r

/-! ### Scanning -/

/-- What holds of a text by its front: nothing, a triplet, or a character that begins none. -/
@[elab_as_elim]
theorem scan_induction {motive : Text → Prop} (nil : motive [])
    (triplet : ∀ p a b s, isTriplet p a b = true → motive s → motive (p :: a :: b :: s))
    (char : ∀ c s, ¬ TripletAhead (c :: s) → motive s → motive (c :: s)) (s : Text) :
    motive s := by
  fun_induction octets s with
  | case1 p a b s h ih => exact triplet p a b s h ih
  | case2 p a b s h ih =>
    refine char p (a :: b :: s) ?_ ih
    rintro ⟨p, a, b, s, ⟨⟩, ht⟩
    exact h ht
  | case3 p s h ih =>
    refine char p s ?_ ih
    rintro ⟨p, a, b, s, ⟨⟩, -⟩
    exact h a b s rfl
  | case4 => exact nil

variable {allowed : CodePoint → Bool} {p a b c : CodePoint} {s : Text}

lemma octets_of_triplet (h : isTriplet p a b = true) (s : Text) :
    octets (p :: a :: b :: s) = octet a b :: octets s := by
  rw [octets, if_pos h]

lemma octets_of_char (h : ¬ TripletAhead (c :: s)) :
    octets (c :: s) = Utf8.encode c ++ octets s := by
  match s with
  | [] => rfl
  | [_] => rfl
  | a :: b :: s =>
    have hn : ¬ isTriplet c a b = true := fun ht => h ⟨c, a, b, s, rfl, ht⟩
    rw [octets, if_neg hn]

lemma encode_of_triplet (h : isTriplet p a b = true) (s : Text) :
    encode true allowed (p :: a :: b :: s) = p :: a :: b :: encode true allowed s := by
  rw [encode, Bool.true_and, if_pos h]

lemma encode_of_char (h : ¬ TripletAhead (c :: s)) :
    encode true allowed (c :: s) = encodeChar allowed c ++ encode true allowed s := by
  match s with
  | [] => rfl
  | [_] => rfl
  | a :: b :: s =>
    have hn : ¬ isTriplet c a b = true := fun ht => h ⟨c, a, b, s, rfl, ht⟩
    rw [encode, Bool.true_and, if_neg hn]

/-! ### Triplets kept -/

/-- **Triplets that are kept** are neither lost nor encoded again. -/
theorem octets_encode_true (hp : allowed '%' = false) (s : Text) :
    octets (encode true allowed s) = octets s := by
  induction s using scan_induction with
  | nil => rfl
  | triplet p a b s h ih =>
    rw [encode_of_triplet h, octets_of_triplet h, octets_of_triplet h, ih]
  | char c s h ih => rw [encode_of_char h, octets_encodeChar hp, octets_of_char h, ih]

lemma encode_true_of_not_hasTriplet (h : ¬ HasTriplet s) :
    encode true allowed s = encode false allowed s := by
  rw [encode_false]
  induction s using scan_induction with
  | nil => rfl
  | triplet p a b s ht ih => exact absurd ⟨[], _, rfl, p, a, b, s, rfl, ht⟩ h
  | char c s hc ih =>
    have hs : ¬ HasTriplet s := by
      rintro ⟨l, r, rfl, hr⟩
      exact h ⟨c :: l, r, rfl, hr⟩
    rw [encode_of_char hc, ih hs, List.flatMap_cons]

lemma length_pos_encode (c : CodePoint) : 0 < (Utf8.encode c).length :=
  List.length_pos_iff.mpr (Utf8.encode_ne_nil c)

/-- A triplet is one octet, and its three characters have at least three. -/
lemma length_octets (s : Text) : (octets s).length ≤ (s.flatMap Utf8.encode).length ∧
    (HasTriplet s → (octets s).length < (s.flatMap Utf8.encode).length) := by
  induction s using scan_induction with
  | nil =>
    refine ⟨Nat.le_refl _, ?_⟩
    rintro ⟨l, r, h, p, a, b, t, rfl, -⟩
    simp at h
  | triplet p a b s h ih =>
    have := length_pos_encode p
    have := length_pos_encode a
    have := length_pos_encode b
    have := ih.1
    simp only [octets_of_triplet h, List.flatMap_cons, List.length_append, List.length_cons]
    exact ⟨by omega, fun _ => by omega⟩
  | char c s h ih =>
    rw [octets_of_char h, List.flatMap_cons, List.length_append, List.length_append]
    refine ⟨Nat.add_le_add_left ih.1 _, ?_⟩
    rintro ⟨l, r, hs, hr⟩
    rcases l with _ | ⟨d, l⟩
    · exact absurd (hs ▸ hr) h
    · have hlt := ih.2 ⟨l, r, (List.cons.inj hs).2, hr⟩
      exact Nat.add_lt_add_left hlt _

/-! ### Both ways of encoding -/

/-- **Encoding keeps octets.** Where the percent sign is not allowed, the octets of an encoded text
are those of the text's UTF-8 form, which is the standard one where no surrogate occurs, and no two
texts are encoded alike. With triplets kept they are the octets that the text had before, and the
two ways of encoding come to the same exactly if no triplet occurs. -/
theorem encode_keeps_octets (hp : allowed '%' = false) :
    (∀ s, octets (encode false allowed s) = s.flatMap Utf8.encode) ∧
      (∀ cs : List Char, (cs.map CodePoint.ofChar).flatMap Utf8.encode =
        cs.flatMap String.utf8EncodeChar) ∧
      Function.Injective (encode false allowed) ∧
      (∀ s, octets (encode true allowed s) = octets s) ∧
      ∀ s, encode true allowed s = encode false allowed s ↔ ¬ HasTriplet s := by
  refine ⟨octets_encode hp, fun cs => ?_, fun s t h => ?_, octets_encode_true hp, fun s => ?_⟩
  · rw [List.flatMap_map]
    exact List.flatMap_congr fun c _ => Utf8.encode_ofChar c
  · refine Utf8.flatMap_encode_injective ?_
    dsimp only
    rw [← octets_encode hp, ← octets_encode hp, h]
  · constructor
    · intro h hs
      have hoctets : octets s = s.flatMap Utf8.encode := by
        rw [← octets_encode_true hp, h, octets_encode hp]
      have hlt := (length_octets s).2 hs
      rw [hoctets] at hlt
      exact absurd hlt (Nat.lt_irrefl _)
    · exact encode_true_of_not_hasTriplet

/-- A percent sign that stands alone before a triplet, a character outside ASCII and a surrogate. -/
theorem unreserved_keeps_octets :
    let s : Text := lit "%%41é" ++ [⟨0xD800, by decide⟩]
    CharClass.unreserved.admits '%' = false ∧
      octets (encode false CharClass.unreserved.admits s) =
        [0x25, 0x25, 0x34, 0x31, 0xC3, 0xA9, 0xED, 0xA0, 0x80] ∧
      octets (encode true CharClass.unreserved.admits s) =
        [0x25, 0x41, 0xC3, 0xA9, 0xED, 0xA0, 0x80] ∧
      encode true CharClass.unreserved.admits s ≠ encode false CharClass.unreserved.admits s := by
  intro s
  obtain ⟨hfalse, -, -, htrue, hsame⟩ := encode_keeps_octets CharClass.unreserved_percent
  refine ⟨CharClass.unreserved_percent, by rw [hfalse]; decide, by rw [htrue]; decide, fun h => ?_⟩
  exact (hsame s).mp h ⟨['%'], _, rfl, '%', '4', '1', _, rfl, by decide⟩

end UriTemplate.Percent

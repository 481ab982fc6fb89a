import Mathlib
import UriTemplate.Text.Utf8

/-!
The reading machine against the written form of UTF-8: octets that take the machine through one
character are exactly the form of a code point that is no surrogate, and the form of a character is
the one the standard library gives it. Reading whole texts strictly comes after.
-/

namespace UriTemplate.Utf8

/-- The character that some octets complete, with the last of them and not before. -/
def complete? (q : State) : List UInt8 → Option CodePoint
  | [] => none
  | b :: bs =>
    match step q b with
    | .done c => if bs = [] then some c else none
    | .next q' => complete? q' bs
    | .refused => none

lemma toNat_toUInt8 {n : Nat} (h : n < 256) : n.toUInt8.toNat = n := by
  simp [Nat.mod_eq_of_lt h]

lemma eq_toUInt8 {b : UInt8} {n : Nat} (h : b.toNat = n) : b = n.toUInt8 := by
  subst h; simp

lemma isSurrogate_eq_false {c : CodePoint} :
    c.isSurrogate = false ↔ c.val < 0xD800 ∨ 0xDFFF < c.val := by
  simp [CodePoint.isSurrogate]
  omega

/-! ### The machine inside a character -/

lemma complete?_last {bits low high : Nat} {bs : List UInt8} {c : CodePoint} :
    complete? (.inside 0 bits low high) bs = some c ↔
      ∃ b, bs = [b] ∧ (low ≤ b.toNat ∧ b.toNat ≤ high) ∧
        c.val = bits * 0x40 + (b.toNat - 0x80) := by
  constructor
  · intro h
    rcases bs with _ | ⟨b, bs⟩
    · simp [complete?] at h
    · by_cases hb : low ≤ b.toNat ∧ b.toNat ≤ high
      · by_cases hn : bits * 0x40 + (b.toNat - 0x80) < 0x110000
        · simp [complete?, step, hb, CodePoint.ofNat?, hn] at h
          obtain ⟨rfl, rfl⟩ := h
          exact ⟨b, rfl, hb, rfl⟩
        · simp [complete?, step, hb, CodePoint.ofNat?, hn] at h
      · simp [complete?, step, hb] at h
  · rintro ⟨b, rfl, hb, hc⟩
    have hlt := c.isLt
    rw [hc] at hlt
    simp [complete?, step, hb, CodePoint.ofNat?, hlt]
    exact CodePoint.ext hc.symm

lemma complete?_more {more bits low high : Nat} {bs : List UInt8} {c : CodePoint} :
    complete? (.inside (more + 1) bits low high) bs = some c ↔
      ∃ b r, bs = b :: r ∧ (low ≤ b.toNat ∧ b.toNat ≤ high) ∧
        complete? (.inside more (bits * 0x40 + (b.toNat - 0x80)) 0x80 0xBF) r = some c := by
  rcases bs with _ | ⟨b, bs⟩
  · simp [complete?]
  · by_cases hb : low ≤ b.toNat ∧ b.toNat ≤ high
    · simp [complete?, step, hb]
    · simp only [complete?, step, hb, if_false, List.cons.injEq, reduceCtorEq, false_iff]
      rintro ⟨b', r, ⟨rfl, rfl⟩, h, -⟩
      exact hb h

lemma complete?_next {q : State} {b : UInt8} {bs : List UInt8} (h : first b.toNat = .next q) :
    complete? .boundary (b :: bs) = complete? q bs := by
  simp [complete?, step, h]

/-! ### The first octet of a character -/

lemma first_one {n : Nat} (h : n < 0x80) (hn : n < 0x110000) : first n = .done ⟨n, hn⟩ := by
  simp [first, h]

lemma first_two {n : Nat} (h : 0xC2 ≤ n ∧ n < 0xE0) :
    first n = .next (.inside 0 (n - 0xC0) 0x80 0xBF) := by
  unfold first
  rw [dif_neg (by omega), if_neg (by omega), if_pos (by omega)]

/-- After E0 an overlong form is ruled out, and after ED a surrogate. -/
lemma first_three {n : Nat} (h : 0xE0 ≤ n ∧ n < 0xF0) :
    ∃ low high, first n = .next (.inside 1 (n - 0xE0) low high) ∧
      ∀ m, low ≤ m ∧ m ≤ high ↔ (0x80 ≤ m ∧ m ≤ 0xBF) ∧
        (n = 0xE0 → 0xA0 ≤ m) ∧ (n = 0xED → m ≤ 0x9F) := by
  unfold first
  rw [dif_neg (by omega), if_neg (by omega), if_neg (by omega)]
  split_ifs with h1 h2 h3
  · exact ⟨0xA0, 0xBF, by simp [h1], by omega⟩
  · exact ⟨0x80, 0x9F, by simp [h2], by omega⟩
  · exact ⟨0x80, 0xBF, rfl, by omega⟩
  all_goals omega

/-- After F0 an overlong form is ruled out, and after F4 a number outside the code space. -/
lemma first_four {n : Nat} (h : 0xF0 ≤ n ∧ n ≤ 0xF4) :
    ∃ low high, first n = .next (.inside 2 (n - 0xF0) low high) ∧
      ∀ m, low ≤ m ∧ m ≤ high ↔ (0x80 ≤ m ∧ m ≤ 0xBF) ∧
        (n = 0xF0 → 0x90 ≤ m) ∧ (n = 0xF4 → m ≤ 0x8F) := by
  unfold first
  rw [dif_neg (by omega), if_neg (by omega), if_neg (by omega), if_neg (by omega),
    if_neg (by omega), if_neg (by omega)]
  split_ifs with h1 h2 h3
  · exact ⟨0x90, 0xBF, by simp [h1], by omega⟩
  · exact ⟨0x80, 0xBF, rfl, by omega⟩
  · exact ⟨0x80, 0x8F, by simp [h3], by omega⟩
  · omega

lemma first_refused {n : Nat} (h : 0x80 ≤ n ∧ n < 0xC2 ∨ 0xF4 < n) : first n = .refused := by
  unfold first
  rcases h with h | h
  · rw [dif_neg (by omega), if_pos (by omega)]
  · rw [dif_neg (by omega), if_neg (by omega), if_neg (by omega), if_neg (by omega),
      if_neg (by omega), if_neg (by omega), if_neg (by omega), if_neg (by omega),
      if_neg (by omega)]

/-! ### The octets of a code point -/

lemma encode_one {b : UInt8} {c : CodePoint} (h : c.val = b.toNat) (hb : b.toNat < 0x80) :
    encode c = [b] := by
  unfold encode
  dsimp only
  rw [if_pos (by omega), ← eq_toUInt8 h.symm]

lemma encode_two {a b : UInt8} {c : CodePoint} (ha : 0xC2 ≤ a.toNat ∧ a.toNat < 0xE0)
    (hb : 0x80 ≤ b.toNat ∧ b.toNat ≤ 0xBF)
    (h : c.val = (a.toNat - 0xC0) * 0x40 + (b.toNat - 0x80)) : encode c = [a, b] := by
  unfold encode
  dsimp only
  rw [if_neg (by omega), if_pos (by omega), ← eq_toUInt8 (b := a) (by omega),
    ← eq_toUInt8 (b := b) (by omega)]

lemma encode_three {a b d : UInt8} {c : CodePoint} (ha : 0xE0 ≤ a.toNat ∧ a.toNat < 0xF0)
    (hb : 0x80 ≤ b.toNat ∧ b.toNat ≤ 0xBF) (hd : 0x80 ≤ d.toNat ∧ d.toNat ≤ 0xBF)
    (hl : a.toNat = 0xE0 → 0xA0 ≤ b.toNat)
    (h : c.val = ((a.toNat - 0xE0) * 0x40 + (b.toNat - 0x80)) * 0x40 + (d.toNat - 0x80)) :
    encode c = [a, b, d] := by
  unfold encode
  dsimp only
  rw [if_neg (by omega), if_neg (by omega), if_pos (by omega), ← eq_toUInt8 (b := a) (by omega),
    ← eq_toUInt8 (b := b) (by omega), ← eq_toUInt8 (b := d) (by omega)]

lemma encode_four {a b d e : UInt8} {c : CodePoint} (ha : 0xF0 ≤ a.toNat ∧ a.toNat ≤ 0xF4)
    (hb : 0x80 ≤ b.toNat ∧ b.toNat ≤ 0xBF) (hd : 0x80 ≤ d.toNat ∧ d.toNat ≤ 0xBF)
    (he : 0x80 ≤ e.toNat ∧ e.toNat ≤ 0xBF) (hl : a.toNat = 0xF0 → 0x90 ≤ b.toNat)
    (h : c.val = (((a.toNat - 0xF0) * 0x40 + (b.toNat - 0x80)) * 0x40 + (d.toNat - 0x80)) * 0x40 +
      (e.toNat - 0x80)) :
    encode c = [a, b, d, e] := by
  unfold encode
  dsimp only
  rw [if_neg (by omega), if_neg (by omega), if_neg (by omega), ← eq_toUInt8 (b := a) (by omega),
    ← eq_toUInt8 (b := b) (by omega), ← eq_toUInt8 (b := d) (by omega),
    ← eq_toUInt8 (b := e) (by omega)]

/-- **What the machine completes is well-formed**: it is the form of a code point that is no
surrogate. -/
theorem eq_encode_of_complete? {bs : List UInt8} {c : CodePoint}
    (h : complete? .boundary bs = some c) : c.isSurrogate = false ∧ encode c = bs := by
  rcases bs with _ | ⟨a, bs⟩
  · simp [complete?] at h
  rw [isSurrogate_eq_false]
  rcases (by omega : a.toNat < 0x80 ∨ (0x80 ≤ a.toNat ∧ a.toNat < 0xC2 ∨ 0xF4 < a.toNat) ∨
    (0xC2 ≤ a.toNat ∧ a.toNat < 0xE0) ∨ (0xE0 ≤ a.toNat ∧ a.toNat < 0xF0) ∨
    (0xF0 ≤ a.toNat ∧ a.toNat ≤ 0xF4)) with ha | ha | ha | ha | ha
  · simp only [complete?, step, first_one ha (by omega)] at h
    split_ifs at h with hbs
    cases h
    subst hbs
    exact ⟨by dsimp only; omega, encode_one rfl ha⟩
  · simp [complete?, step, first_refused ha] at h
  · rw [complete?_next (first_two ha), complete?_last] at h
    obtain ⟨b, rfl, hb, hc⟩ := h
    exact ⟨by omega, encode_two ha hb hc⟩
  · obtain ⟨low, high, hf, hm⟩ := first_three ha
    rw [complete?_next hf, complete?_more] at h
    obtain ⟨b, r, rfl, hb, hr⟩ := h
    obtain ⟨d, rfl, hd, hc⟩ := complete?_last.mp hr
    obtain ⟨hb, h1, h2⟩ := (hm _).mp hb
    exact ⟨by omega, encode_three ha hb hd h1 hc⟩
  · obtain ⟨low, high, hf, hm⟩ := first_four ha
    rw [complete?_next hf, complete?_more] at h
    obtain ⟨b, r, rfl, hb, hr⟩ := h
    obtain ⟨d, r, rfl, hd, hr⟩ := complete?_more.mp hr
    obtain ⟨e, rfl, he, hc⟩ := complete?_last.mp hr
    obtain ⟨hb, h1, h2⟩ := (hm _).mp hb
    exact ⟨by omega, encode_four ha hb hd he h1 hc⟩

/-- **What is well-formed the machine completes.** -/
theorem complete?_encode {c : CodePoint} (h : c.isSurrogate = false) :
    complete? .boundary (encode c) = some c := by
  have hlt := c.isLt
  rw [isSurrogate_eq_false] at h
  unfold encode
  dsimp only
  split_ifs with h1 h2 h3
  · simp only [complete?, step]
    rw [toNat_toUInt8 (by omega), first_one h1 c.isLt]
    simp
  · rw [complete?_next (by rw [toNat_toUInt8 (by omega)]; exact first_two (by omega)),
      complete?_last]
    refine ⟨_, rfl, ?_⟩
    rw [toNat_toUInt8 (by omega)]
    omega
  · obtain ⟨low, high, hf, hm⟩ := first_three (n := 0xE0 + c.val / 0x1000) (by omega)
    rw [complete?_next (by rw [toNat_toUInt8 (by omega)]; exact hf)]
    refine complete?_more.mpr ⟨_, _, rfl, ?_, complete?_last.mpr ⟨_, rfl, ?_⟩⟩
    · rw [toNat_toUInt8 (by omega), hm]
      omega
    · rw [toNat_toUInt8 (by omega), toNat_toUInt8 (by omega)]
      omega
  · obtain ⟨low, high, hf, hm⟩ := first_four (n := 0xF0 + c.val / 0x40000) (by omega)
    rw [complete?_next (by rw [toNat_toUInt8 (by omega)]; exact hf)]
    refine complete?_more.mpr ⟨_, _, rfl, ?_, complete?_more.mpr ⟨_, _, rfl, ?_,
      complete?_last.mpr ⟨_, rfl, ?_⟩⟩⟩
    · rw [toNat_toUInt8 (by omega), hm]
      omega
    · rw [toNat_toUInt8 (by omega)]
      omega
    · rw [toNat_toUInt8 (by omega), toNat_toUInt8 (by omega), toNat_toUInt8 (by omega)]
      omega

lemma encode_ne_nil (c : CodePoint) : encode c ≠ [] := by
  unfold encode
  dsimp only
  split_ifs <;> simp

lemma encode_ofChar (c : Char) : encode c = String.utf8EncodeChar c := by
  have h : c.val.toNat < 0x110000 := CodePoint.char_lt c
  have hv : (CodePoint.ofChar c).val = c.val.toNat := rfl
  unfold encode String.utf8EncodeChar
  simp only [hv, Nat.toUInt8, ← Nat.lt_succ_iff]
  split_ifs with h1 h2 h3
  · rfl
  · rw [Nat.mod_eq_of_lt (by omega : c.val.toNat / 64 < 0x20)]
    simp only [Nat.add_comm]
  · rw [Nat.mod_eq_of_lt (by omega : c.val.toNat / 4096 < 0x10)]
    simp only [Nat.add_comm]
  · rw [Nat.mod_eq_of_lt (by omega : c.val.toNat / 262144 < 0x08)]
    simp only [Nat.add_comm]

lemma isSurrogate_ofChar (c : Char) : (CodePoint.ofChar c).isSurrogate = false := by
  rw [isSurrogate_eq_false]
  have h : c.toNat.isValidChar := c.valid
  unfold Nat.isValidChar at h
  have hv : (CodePoint.ofChar c).val = c.toNat := rfl
  omega

lemma exists_char {c : CodePoint} (h : c.isSurrogate = false) :
    ∃ d : Char, c = CodePoint.ofChar d := by
  have hlt := c.isLt
  rw [isSurrogate_eq_false] at h
  have hv : c.val.isValidChar := by
    unfold Nat.isValidChar
    omega
  refine ⟨Char.ofNat c.val, CodePoint.ext ?_⟩
  simp [CodePoint.ofChar, Char.ofNat, hv]

/-! ### Texts -/

/-- The text whose form some octets are, none if they are ill-formed. -/
def decodeFrom (q : State) : List UInt8 → Option Text
  | [] => if q = .boundary then some [] else none
  | b :: bs =>
    match step q b with
    | .done c => (decodeFrom .boundary bs).map (c :: ·)
    | .next q' => decodeFrom q' bs
    | .refused => none

def decode? (bs : List UInt8) : Option Text := decodeFrom .boundary bs

lemma decodeFrom_append {q : State} {bs r : List UInt8} {c : CodePoint}
    (h : complete? q bs = some c) : decodeFrom q (bs ++ r) = (decode? r).map (c :: ·) := by
  induction bs generalizing q with
  | nil => simp [complete?] at h
  | cons b bs ih =>
    simp only [complete?] at h
    rcases hs : step q b with d | q' | _ <;> rw [hs] at h <;> simp only [reduceCtorEq] at h
    · split_ifs at h with hb
      cases h
      simp [decodeFrom, decode?, hs, hb]
    · simp [decodeFrom, hs, ih h]

lemma decode?_encode_append {c : CodePoint} (h : c.isSurrogate = false) (r : List UInt8) :
    decode? (encode c ++ r) = (decode? r).map (c :: ·) :=
  decodeFrom_append (complete?_encode h)

/-- Strict reading gives back a text without surrogates from its form. -/
theorem decode?_flatMap_encode {s : Text} (h : ∀ c ∈ s, c.isSurrogate = false) :
    decode? (s.flatMap encode) = some s := by
  induction s with
  | nil => rfl
  | cons c s ih =>
    rw [List.flatMap_cons, decode?_encode_append (h c (by simp)),
      ih fun d hd => h d (List.mem_cons_of_mem _ hd)]
    rfl

lemma first_ne_next_boundary (n : Nat) : first n ≠ .next .boundary := by
  unfold first
  split_ifs <;> simp

/-- A reader that is led on is inside a character. -/
lemma step_ne_next_boundary (q : State) (b : UInt8) : step q b ≠ .next .boundary := by
  cases q with
  | boundary => exact first_ne_next_boundary b.toNat
  | inside more bits low high =>
    unfold step
    dsimp only
    split_ifs
    · rcases more with _ | k
      · dsimp only
        split <;> simp
      · simp
    · simp

/-- What is read either ends before a character or starts with one. -/
lemma decodeFrom_cases {q : State} {bs : List UInt8} {s : Text} (h : decodeFrom q bs = some s) :
    (q = .boundary ∧ bs = [] ∧ s = []) ∨ ∃ cs c r t, bs = cs ++ r ∧ complete? q cs = some c ∧
      s = c :: t ∧ decode? r = some t := by
  induction bs generalizing q with
  | nil =>
    simp only [decodeFrom] at h
    split_ifs at h with hq
    cases h
    exact .inl ⟨hq, rfl, rfl⟩
  | cons b bs ih =>
    simp only [decodeFrom] at h
    rcases hs : step q b with c | q' | _ <;> rw [hs] at h <;> dsimp only at h
    · obtain ⟨t, ht, rfl⟩ := Option.map_eq_some_iff.mp h
      exact .inr ⟨[b], c, bs, t, rfl, by simp [complete?, hs], rfl, ht⟩
    · rcases ih h with ⟨rfl, -⟩ | ⟨cs, c, r, t, rfl, hc, rfl, ht⟩
      · exact absurd hs (step_ne_next_boundary q b)
      · exact .inr ⟨b :: cs, c, r, t, rfl, by simp [complete?, hs, hc], rfl, ht⟩
    · cases h

/-- **Strict reading** gives exactly the texts without surrogates, from their forms. -/
theorem decode?_eq_some_iff {bs : List UInt8} {s : Text} : decode? bs = some s ↔
    (∀ c ∈ s, c.isSurrogate = false) ∧ s.flatMap encode = bs := by
  constructor
  · intro h
    induction s generalizing bs with
    | nil =>
      rcases decodeFrom_cases h with ⟨-, rfl, -⟩ | ⟨_, _, _, _, -, -, hs, -⟩
      · simp
      · cases hs
    | cons c s ih =>
      rcases decodeFrom_cases h with ⟨-, -, hs⟩ | ⟨cs, d, r, t, rfl, hd, hs, ht⟩
      · cases hs
      · cases hs
        obtain ⟨hsurrogate, rfl⟩ := eq_encode_of_complete? hd
        obtain ⟨hrest, rfl⟩ := ih ht
        exact ⟨List.forall_mem_cons.mpr ⟨hsurrogate, hrest⟩, List.flatMap_cons⟩
  · rintro ⟨h, rfl⟩
    exact decode?_flatMap_encode h

end UriTemplate.Utf8

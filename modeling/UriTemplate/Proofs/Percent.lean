import UriTemplate.Proofs.Utf8
import UriTemplate.Uri.Percent

/-!
Texts spelled with allowed characters and triplets. Whatever the encoder writes is spelled so, with
triplets kept or not, and what is spelled so the encoder that keeps triplets leaves alone. Reading
the octets back off an encoded text gives the octets of the text that was encoded.
-/

namespace UriTemplate

namespace CharClass

lemma unreserved_of_hexDigit {c : CodePoint} (h : hexDigit.admits c = true) :
    unreserved.admits c = true := by
  simp only [admits, holds, isHexDigit, isUnreserved, isAlpha, isDigit, between, Bool.or_eq_true,
    Bool.and_eq_true, decide_eq_true_eq] at h ⊢
  omega

lemma unreserved_of_varchar {c : CodePoint} (h : varchar.admits c = true) :
    unreserved.admits c = true := by
  simp [admits, holds, isUnreserved, among, unreservedMarks] at h ⊢
  rcases h with h | h <;> simp [h]

lemma isAscii_of_unreserved {c : CodePoint} (h : unreserved.admits c = true) :
    c.isAscii = true := by
  simp [admits, holds, isUnreserved, isAlpha, isDigit, between, among, unreservedMarks,
    CodePoint.isAscii] at h ⊢
  omega

lemma isAscii_of_hexDigit {c : CodePoint} (h : hexDigit.admits c = true) : c.isAscii = true :=
  isAscii_of_unreserved (unreserved_of_hexDigit h)

lemma isAscii_of_literal {c : CodePoint} (h : literal.admits c = true) : c.isAscii = true := by
  simp [admits, holds, inRanges, literalRanges, between, CodePoint.isAscii] at h ⊢
  omega

lemma unreserved_percent : unreserved.admits '%' = false := by decide

lemma unreserved_equals : unreserved.admits '=' = false := by decide

lemma unreservedOrReserved_of_unreserved {c : CodePoint} (h : unreserved.admits c = true) :
    unreservedOrReserved.admits c = true := by
  simp only [admits, holds] at h ⊢
  simp [h]

lemma unreservedOrReserved_of_literal {c : CodePoint} (h : literal.admits c = true) :
    unreservedOrReserved.admits c = true := by
  simp [admits, holds, inRanges, literalRanges, between, isUnreserved, isReserved, isAlpha,
    isDigit, among, unreservedMarks, genDelims, subDelims] at h ⊢
  omega

lemma literal_of_unreservedOrReserved {c : CodePoint} (h : unreservedOrReserved.admits c = true)
    (hc : c ≠ '\'') : literal.admits c = true := by
  have hv : c.val ≠ 0x27 := fun e => hc (CodePoint.ext e)
  simp [admits, holds, inRanges, literalRanges, between, isUnreserved, isReserved, isAlpha,
    isDigit, among, unreservedMarks, genDelims, subDelims] at h ⊢
  omega

lemma literal_of_unreserved {c : CodePoint} (h : unreserved.admits c = true) :
    literal.admits c = true := by
  refine literal_of_unreservedOrReserved (unreservedOrReserved_of_unreserved h) ?_
  rintro rfl
  simp [show unreserved.admits '\'' = false by decide] at h

end CharClass

namespace Percent

/-- Two hexadecimal digits lie ahead. -/
def HexAhead (s : Text) : Prop :=
  ∃ a b r, s = a :: b :: r ∧ CharClass.hexDigit.admits a = true ∧ CharClass.hexDigit.admits b = true

/-- Each character is allowed, or is a percent sign with two hexadecimal digits after it. -/
def Spelled (allowed : CodePoint → Bool) : Text → Prop
  | [] => True
  | c :: s => (allowed c = true ∨ c = '%' ∧ HexAhead s) ∧ Spelled allowed s

lemma isTriplet_iff {p a b : CodePoint} : isTriplet p a b = true ↔
    p = '%' ∧ CharClass.hexDigit.admits a = true ∧ CharClass.hexDigit.admits b = true := by
  simp [isTriplet, and_assoc]

lemma HexAhead.append {s : Text} (h : HexAhead s) (t : Text) : HexAhead (s ++ t) := by
  obtain ⟨a, b, r, rfl, ha, hb⟩ := h
  exact ⟨a, b, r ++ t, rfl, ha, hb⟩

variable {allowed : CodePoint → Bool}

lemma Spelled.append {s t : Text} (hs : Spelled allowed s) (ht : Spelled allowed t) :
    Spelled allowed (s ++ t) := by
  induction s with
  | nil => exact ht
  | cons c s ih => exact ⟨hs.1.imp id fun h => ⟨h.1, h.2.append t⟩, ih hs.2⟩

lemma Spelled.mono {more : CodePoint → Bool} (hm : ∀ c, allowed c = true → more c = true)
    {s : Text} (hs : Spelled allowed s) : Spelled more s := by
  induction s with
  | nil => trivial
  | cons c s ih => exact ⟨hs.1.imp (hm c) id, ih hs.2⟩

lemma Spelled.intercalate {sep : Text} (hsep : Spelled allowed sep) {ts : List Text}
    (h : ∀ t ∈ ts, Spelled allowed t) : Spelled allowed (sep.intercalate ts) := by
  induction ts with
  | nil => trivial
  | cons t ts ih =>
    have ht := h t (by simp)
    have ih := ih fun u hu => h u (List.mem_cons_of_mem _ hu)
    rcases ts with _ | ⟨u, ts⟩
    · simpa using ht
    · rw [List.intercalate_cons_cons]
      exact (ht.append hsep).append ih

lemma spelled_singleton {c : CodePoint} (h : allowed c = true) : Spelled allowed [c] :=
  ⟨.inl h, trivial⟩

lemma spelled_of_forall {s : Text} (h : ∀ c ∈ s, allowed c = true) : Spelled allowed s := by
  induction s with
  | nil => trivial
  | cons c s ih =>
    obtain ⟨hc, hs⟩ := List.forall_mem_cons.mp h
    exact ⟨.inl hc, ih hs⟩

/-- A character that is neither allowed nor part of a triplet does not occur. -/
lemma Spelled.not_mem {s : Text} (hs : Spelled allowed s) {d : CodePoint} (hd : allowed d = false)
    (hp : d ≠ '%') : d ∉ s := by
  induction s with
  | nil => simp
  | cons c s ih =>
    intro hm
    rcases List.mem_cons.mp hm with rfl | hm
    · rcases hs.1 with h | h
      · simp [hd] at h
      · exact hp h.1
    · exact ih hs.2 hm

/-- Without a percent sign there are only allowed characters. -/
lemma Spelled.forall_of_not_mem {s : Text} (hs : Spelled allowed s) (hp : .ofChar '%' ∉ s) :
    ∀ c ∈ s, allowed c = true := by
  induction s with
  | nil => simp
  | cons c s ih =>
    rw [List.mem_cons, not_or] at hp
    have hc := hs.1.resolve_right fun h => hp.1 h.1.symm
    exact List.forall_mem_cons.mpr ⟨hc, ih hs.2 hp.2⟩

/-! ### What the encoder writes -/

lemma hexDigit_hexUpper : ∀ n < 16, CharClass.hexDigit.admits (hexUpper n) = true := by decide

lemma hexValue_hexUpper : ∀ n < 16, hexValue (hexUpper n) = n := by decide

lemma isTriplet_triplet (b : UInt8) :
    isTriplet '%' (hexUpper (b.toNat / 16)) (hexUpper (b.toNat % 16)) = true := by
  have hb := b.toNat_lt
  exact isTriplet_iff.mpr ⟨rfl, hexDigit_hexUpper _ (by omega), hexDigit_hexUpper _ (by omega)⟩

lemma octet_hexUpper (b : UInt8) :
    octet (hexUpper (b.toNat / 16)) (hexUpper (b.toNat % 16)) = b := by
  have hb := b.toNat_lt
  unfold octet
  rw [hexValue_hexUpper _ (by omega), hexValue_hexUpper _ (by omega)]
  exact (Utf8.eq_toUInt8 (by omega)).symm

section
variable (hex : ∀ c, CharClass.hexDigit.admits c = true → allowed c = true)
include hex

lemma spelled_of_isTriplet {p a b : CodePoint} (h : isTriplet p a b = true) :
    Spelled allowed [p, a, b] := by
  obtain ⟨rfl, ha, hb⟩ := isTriplet_iff.mp h
  exact ⟨.inr ⟨rfl, a, b, [], rfl, ha, hb⟩, .inl (hex a ha), .inl (hex b hb), trivial⟩

lemma spelled_escape (c : CodePoint) : Spelled allowed (escape c) := by
  unfold escape
  induction Utf8.encode c with
  | nil => trivial
  | cons b bs ih =>
    rw [List.flatMap_cons]
    exact (spelled_of_isTriplet hex (isTriplet_triplet b)).append ih

lemma spelled_encodeChar (c : CodePoint) : Spelled allowed (encodeChar allowed c) := by
  rw [encodeChar_eq]
  split_ifs with h
  · exact spelled_singleton h
  · exact spelled_escape hex c

/-- **What is written is spelled with the allowed characters**, whether triplets are kept or not. -/
theorem spelled_encode (keeps : Bool) (s : Text) : Spelled allowed (encode keeps allowed s) := by
  fun_induction encode keeps allowed s with
  | case1 p a b s h ih =>
    rw [Bool.and_eq_true] at h
    exact (spelled_of_isTriplet hex h.2).append ih
  | case2 p a b s _ ih => exact (spelled_encodeChar hex p).append ih
  | case3 p s _ ih => exact (spelled_encodeChar hex p).append ih
  | case4 => trivial

end

/-- **A text spelled with the allowed characters is left alone** where triplets are kept. -/
theorem encode_of_spelled {s : Text} (h : Spelled allowed s) : encode true allowed s = s := by
  have hchar : ∀ {c s}, Spelled allowed (c :: s) → ¬ (c = '%' ∧ HexAhead s) →
      encodeChar allowed c = [c] := by
    intro c s hs hn
    rw [encodeChar_eq, if_pos (hs.1.resolve_right hn)]
  fun_induction encode true allowed s with
  | case1 p a b s _ ih => rw [ih h.2.2.2]
  | case2 p a b s hn ih =>
    rw [ih h.2, hchar h]
    · rfl
    · rintro ⟨rfl, a', b', r, hr, ha, hb⟩
      cases hr
      exact hn (by simp [isTriplet_iff, ha, hb])
  | case3 p s hs ih =>
    rw [ih h.2, hchar h]
    · rfl
    · rintro ⟨-, a, b, r, rfl, -⟩
      exact hs a b r rfl
  | case4 => rfl

lemma encode_false (s : Text) : encode false allowed s = s.flatMap (encodeChar allowed) := by
  fun_induction encode false allowed s with
  | case1 p a b s h => simp at h
  | case2 p a b s _ ih => rw [ih, ← List.flatMap_cons]
  | case3 p s _ ih => rw [ih, List.flatMap_cons]
  | case4 => rfl

lemma encode_false_cons (c : CodePoint) (s : Text) :
    encode false allowed (c :: s) = encodeChar allowed c ++ encode false allowed s := by
  rw [encode_false, encode_false, List.flatMap_cons]

lemma escape_ne_nil (c : CodePoint) : escape c ≠ [] := by
  have hc := Utf8.encode_ne_nil c
  unfold escape
  rcases h : Utf8.encode c with _ | ⟨b, bs⟩
  · exact absurd h hc
  · simp [triplet]

lemma length_escape (c : CodePoint) : (escape c).length = 3 * (Utf8.encode c).length := by
  unfold escape
  induction Utf8.encode c with
  | nil => rfl
  | cons b bs ih =>
    rw [List.flatMap_cons, List.length_append, ih, List.length_cons]
    simp only [triplet, List.length_cons, List.length_nil]
    omega

lemma encodeChar_ne_nil (c : CodePoint) : encodeChar allowed c ≠ [] := by
  rw [encodeChar_eq]
  split_ifs
  · simp
  · exact escape_ne_nil c

/-- Encoding loses no character, so nothing but an empty text is encoded to one. -/
lemma encode_eq_nil {keeps : Bool} {s : Text} : encode keeps allowed s = [] ↔ s = [] := by
  fun_induction encode keeps allowed s with
  | case1 => simp
  | case2 p a b s _ ih => simp [encodeChar_ne_nil]
  | case3 p s _ ih => simp [encodeChar_ne_nil]
  | case4 => simp

lemma encode_of_forall {s : Text} (h : ∀ c ∈ s, allowed c = true) :
    encode false allowed s = s := by
  induction s with
  | nil => rfl
  | cons c s ih =>
    have hc := h c (by simp)
    rw [encode_false_cons, encodeChar_eq, if_pos hc,
      ih fun d hd => h d (List.mem_cons_of_mem _ hd), List.singleton_append]

/-! ### Octets -/

/-- The octets of a text: a triplet stands for its own, any other character for its UTF-8 form. -/
def octets : Text → List UInt8
  | p :: a :: b :: s =>
    if isTriplet p a b then octet a b :: octets s
    else Utf8.encode p ++ octets (a :: b :: s)
  | p :: s => Utf8.encode p ++ octets s
  | [] => []

/-- The text whose UTF-8 form the octets of a text are, none if they are ill-formed. -/
def decode? (s : Text) : Option Text := Utf8.decode? (octets s)

lemma octets_cons {c : CodePoint} (h : c ≠ '%') (s : Text) :
    octets (c :: s) = Utf8.encode c ++ octets s := by
  match s with
  | [] => rfl
  | [_] => rfl
  | a :: b :: s => simp [octets, isTriplet, h]

lemma octets_triplet (b : UInt8) (s : Text) : octets (triplet b ++ s) = b :: octets s := by
  simp only [triplet, List.cons_append, List.nil_append, octets]
  rw [if_pos (isTriplet_triplet b), octet_hexUpper]

lemma octets_escape (c : CodePoint) (s : Text) :
    octets (escape c ++ s) = Utf8.encode c ++ octets s := by
  unfold escape
  induction Utf8.encode c with
  | nil => rfl
  | cons b bs ih =>
    rw [List.flatMap_cons, List.append_assoc, octets_triplet, ih, List.cons_append]

lemma octets_encodeChar (hp : allowed '%' = false) (c : CodePoint) (s : Text) :
    octets (encodeChar allowed c ++ s) = Utf8.encode c ++ octets s := by
  rw [encodeChar_eq]
  split_ifs with h
  · refine octets_cons ?_ s
    rintro rfl
    simp [hp] at h
  · exact octets_escape c s

/-- **Nothing is lost**: the octets of an encoded text are those of the text. -/
theorem octets_encode (hp : allowed '%' = false) (s : Text) :
    octets (encode false allowed s) = s.flatMap Utf8.encode := by
  rw [encode_false]
  induction s with
  | nil => rfl
  | cons c s ih => rw [List.flatMap_cons, octets_encodeChar hp, ih, List.flatMap_cons]

/-- Decoding undoes encoding where no surrogate occurs. -/
theorem decode?_encode (hp : allowed '%' = false) {s : Text}
    (h : ∀ c ∈ s, c.isSurrogate = false) : decode? (encode false allowed s) = some s := by
  rw [decode?, octets_encode hp, Utf8.decode?_flatMap_encode h]

end Percent

end UriTemplate

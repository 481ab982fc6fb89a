import UriTemplate.Proofs.Octets
import UriTemplate.Proofs.Names

/-!
Runs of triplets. A longest run begins and ends where characters do: if the octets of a whole text
are those of another one, the octets of each longest run are those of a part of it. A run is what
encoding writes if its hexadecimal digits are capitals and its octets are those of characters none
of which is allowed to stand for itself.
-/

namespace UriTemplate

namespace Percent

/-- A triplet stands at the end. -/
def TripletBehind (s : Text) : Prop :=
  ∃ l p a b, s = l ++ [p, a, b] ∧ isTriplet p a b = true

/-- A longest run of triplets in a text, with no triplet right before it and none right after. -/
def IsRun (s u : Text) : Prop :=
  u ≠ [] ∧ (∃ bs, Grammar.Triplets u bs) ∧
    ∃ l r, s = l ++ (u ++ r) ∧ ¬ TripletBehind l ∧ ¬ TripletAhead r

/-- No hexadecimal digit is a small letter. -/
def InCapitals (u : Text) : Prop := ∀ c ∈ u, ¬ (0x61 ≤ c.val ∧ c.val ≤ 0x66)

/-! ### Where octets can be parted -/

lemma hexDigit_percent : CharClass.hexDigit.admits '%' = false := by decide

lemma TripletBehind.append {s : Text} (h : TripletBehind s) (t : Text) :
    TripletBehind (t ++ s) := by
  obtain ⟨l, p, a, b, rfl, ht⟩ := h
  exact ⟨t ++ l, p, a, b, by rw [List.append_assoc], ht⟩

lemma tripletAhead_cons {c : CodePoint} {s : Text} :
    TripletAhead (c :: s) ↔ c = '%' ∧ HexAhead s := by
  constructor
  · rintro ⟨p, a, b, r, hs, ht⟩
    cases hs
    obtain ⟨rfl, ha, hb⟩ := isTriplet_iff.mp ht
    exact ⟨rfl, a, b, r, rfl, ha, hb⟩
  · rintro ⟨rfl, a, b, r, rfl, ha, hb⟩
    exact ⟨_, a, b, r, rfl, isTriplet_iff.mpr ⟨rfl, ha, hb⟩⟩

/-- No triplet goes on over a percent sign. -/
lemma HexAhead.before_percent {s t : Text} (h : HexAhead (s ++ .ofChar '%' :: t)) :
    HexAhead s := by
  obtain ⟨a, b, r, hs, ha, hb⟩ := h
  match s with
  | [] =>
    cases hs
    simp [hexDigit_percent] at ha
  | [_] =>
    cases hs
    simp [hexDigit_percent] at hb
  | _ :: _ :: s =>
    cases hs
    exact ⟨_, _, s, rfl, ha, hb⟩

/-- Octets can be parted before a percent sign. -/
lemma octets_append_percent (l t : Text) :
    octets (l ++ .ofChar '%' :: t) = octets l ++ octets (.ofChar '%' :: t) := by
  induction l using scan_induction with
  | nil => rfl
  | triplet p a b l h ih =>
    rw [List.cons_append, List.cons_append, List.cons_append, octets_of_triplet h,
      octets_of_triplet h, ih, List.cons_append]
  | char c l h ih =>
    have hahead : ¬ TripletAhead (c :: (l ++ .ofChar '%' :: t)) := by
      rw [tripletAhead_cons] at h ⊢
      exact fun ht => h ⟨ht.1, ht.2.before_percent⟩
    rw [List.cons_append, octets_of_char hahead, octets_of_char h, ih, List.append_assoc]

/-- So they can on both sides of triplets. -/
lemma octets_around {u : Text} {bs : List UInt8} (hu : Grammar.Triplets u bs) (hne : u ≠ [])
    (l r : Text) : octets (l ++ (u ++ r)) = octets l ++ (bs ++ octets r) := by
  rw [← Grammar.octets_triplets hu]
  cases hu with
  | nil => exact absurd rfl hne
  | cons => exact octets_append_percent l _

/-- They can be parted before a last character that ends no triplet. -/
lemma octets_concat {l : Text} {c : CodePoint} (h : ¬ TripletBehind (l ++ [c])) :
    octets (l ++ [c]) = octets l ++ Utf8.encode c := by
  induction l using scan_induction with
  | nil => simp [octets]
  | triplet p a b l ht ih =>
    have hl : ¬ TripletBehind (l ++ [c]) := fun hb => h (hb.append [p, a, b])
    rw [List.cons_append, List.cons_append, List.cons_append, octets_of_triplet ht,
      octets_of_triplet ht, ih hl, List.cons_append]
  | char d l hd ih =>
    have hl : ¬ TripletBehind (l ++ [c]) := fun hb => h (hb.append [d])
    have hahead : ¬ TripletAhead (d :: (l ++ [c])) := by
      rintro ⟨p, a, b, r, hs, ht⟩
      rcases l with _ | ⟨x, _ | ⟨y, l⟩⟩
      · cases hs
      · cases hs
        exact h ⟨[], _, _, _, rfl, ht⟩
      · cases hs
        exact hd ⟨_, _, _, l, rfl, ht⟩
    rw [List.cons_append, octets_of_char hahead, octets_of_char hd, ih hl, List.append_assoc]

/-! ### Parts of what is read -/

/-- What stands before a place where no triplet ends is read by itself. -/
lemma exists_split_before {d l : Text} (hl : ¬ TripletBehind l) {ys : List UInt8}
    (h : d.flatMap Utf8.encode = octets l ++ ys) :
    ∃ d₁ d₂, d = d₁ ++ d₂ ∧ d₁.flatMap Utf8.encode = octets l ∧ d₂.flatMap Utf8.encode = ys := by
  rcases List.eq_nil_or_concat' l with rfl | ⟨l, c, rfl⟩
  · exact ⟨[], d, rfl, rfl, h⟩
  · rw [octets_concat hl, List.append_assoc] at h
    obtain ⟨v, w, rfl, hv, hw⟩ := Utf8.exists_split h
    refine ⟨v ++ [c], w, by rw [List.append_assoc, List.singleton_append], ?_, hw⟩
    rw [octets_concat hl, List.flatMap_append, hv, List.flatMap_singleton]

/-- What stands after a place where no triplet begins is. -/
lemma exists_split_after {d r : Text} (hr : ¬ TripletAhead r) {xs : List UInt8}
    (h : d.flatMap Utf8.encode = xs ++ octets r) :
    ∃ d₁ d₂, d = d₁ ++ d₂ ∧ d₁.flatMap Utf8.encode = xs ∧ d₂.flatMap Utf8.encode = octets r := by
  rcases r with _ | ⟨c, r⟩
  · rw [octets, List.append_nil] at h
    exact ⟨d, [], (List.append_nil d).symm, h, rfl⟩
  · rw [octets_of_char hr] at h
    obtain ⟨v, w, rfl, hv, hw⟩ := Utf8.exists_split h
    exact ⟨v, c :: w, rfl, hv, by rw [octets_of_char hr, List.flatMap_cons, hw]⟩

/-- **A longest run** is read by itself. -/
theorem exists_split_run {d l u r : Text} {bs : List UInt8} (hu : Grammar.Triplets u bs)
    (hne : u ≠ []) (hl : ¬ TripletBehind l) (hr : ¬ TripletAhead r)
    (h : d.flatMap Utf8.encode = octets (l ++ (u ++ r))) :
    ∃ d₁ d₂ d₃, d = d₁ ++ (d₂ ++ d₃) ∧ d₁.flatMap Utf8.encode = octets l ∧
      d₂.flatMap Utf8.encode = bs ∧ d₃.flatMap Utf8.encode = octets r := by
  rw [octets_around hu hne] at h
  obtain ⟨d₁, d', rfl, h₁, h'⟩ := exists_split_before hl h
  obtain ⟨d₂, d₃, rfl, h₂, h₃⟩ := exists_split_after hr h'
  exact ⟨d₁, d₂, d₃, rfl, h₁, h₂, h₃⟩

/-! ### Parts of spelled texts -/

variable {allowed : CodePoint → Bool}

lemma Spelled.of_append {s t : Text} (h : Spelled allowed (s ++ t)) : Spelled allowed t := by
  induction s with
  | nil => exact h
  | cons c s ih => exact ih h.2

lemma Spelled.before_percent {s t : Text} (h : Spelled allowed (s ++ .ofChar '%' :: t)) :
    Spelled allowed s := by
  induction s with
  | nil => trivial
  | cons c s ih => exact ⟨h.1.imp id fun hx => ⟨hx.1, hx.2.before_percent⟩, ih h.2⟩

lemma Spelled.before_triplets {u l r : Text} {bs : List UInt8} (hu : Grammar.Triplets u bs)
    (hne : u ≠ []) (h : Spelled allowed (l ++ (u ++ r))) : Spelled allowed l := by
  cases hu with
  | nil => exact absurd rfl hne
  | cons => exact h.before_percent

/-- A character outside triplets is allowed. -/
lemma Spelled.allowed_of_char {c : CodePoint} {s : Text} (h : Spelled allowed (c :: s))
    (hc : ¬ TripletAhead (c :: s)) : allowed c = true :=
  h.1.resolve_right fun hx => hc (tripletAhead_cons.mpr hx)

/-- Octets can be parted wherever a triplet is not. -/
lemma Spelled.octets_append (hp : allowed '%' = false) {s : Text} (h : Spelled allowed s)
    (t : Text) : octets (s ++ t) = octets s ++ octets t := by
  induction s using scan_induction with
  | nil => rfl
  | triplet p a b s ht ih =>
    rw [List.cons_append, List.cons_append, List.cons_append, octets_of_triplet ht,
      octets_of_triplet ht, ih h.2.2.2, List.cons_append]
  | char c s hc ih =>
    have hallowed := h.allowed_of_char hc
    have hne : c ≠ '%' := by
      rintro rfl
      simp [hp] at hallowed
    rw [List.cons_append, octets_cons hne, octets_cons hne, ih h.2, List.append_assoc]

lemma octets_eq_nil {s : Text} (h : octets s = []) : s = [] := by
  induction s using scan_induction with
  | nil => rfl
  | triplet p a b s ht ih => simp [octets_of_triplet ht] at h
  | char c s hc ih => simp [octets_of_char hc, Utf8.encode_ne_nil] at h

/-- Parts at the front of one text that have the same octets are the same. -/
theorem Spelled.eq_of_octets (hp : allowed '%' = false) {s s' t t' : Text} (hs : Spelled allowed s)
    (ht : Spelled allowed t) (h : s ++ s' = t ++ t') (ho : octets s = octets t) :
    s = t ∧ s' = t' := by
  have hst : s = t := by
    rcases List.append_eq_append_iff.mp h with ⟨w, rfl, -⟩ | ⟨w, rfl, -⟩
    · rw [hs.octets_append hp, List.self_eq_append_right] at ho
      rw [octets_eq_nil ho, List.append_nil]
    · rw [ht.octets_append hp, List.append_right_eq_self] at ho
      rw [octets_eq_nil ho, List.append_nil]
  subst hst
  exact ⟨rfl, List.append_cancel_left h⟩

/-! ### Runs that encoding writes -/

lemma octets_of_triplets {u : Text} {bs : List UInt8} (h : Grammar.Triplets u bs) :
    octets u = bs := by
  have hoctets := Grammar.octets_triplets h []
  rwa [List.append_nil, octets, List.append_nil] at hoctets

lemma triplet_octet {a b : CodePoint} (ha : CharClass.hexDigit.admits a = true)
    (hb : CharClass.hexDigit.admits b = true) (h : InCapitals [a, b]) :
    triplet (octet a b) = [.ofChar '%', a, b] := by
  have hdigit : ∀ c, CharClass.hexDigit.admits c = true → ¬ (0x61 ≤ c.val ∧ c.val ≤ 0x66) →
      hexValue c < 16 ∧ hexUpper (hexValue c) = c := by
    intro c hc hcapital
    simp only [CharClass.admits, CharClass.holds, CharClass.isHexDigit, CharClass.isDigit,
      CharClass.between, Bool.or_eq_true, Bool.and_eq_true, decide_eq_true_eq] at hc
    unfold hexValue hexUpper
    split_ifs <;> refine ⟨by omega, CodePoint.ext ?_⟩ <;> dsimp only <;> omega
  obtain ⟨ha16, ha⟩ := hdigit a ha (h a (by simp))
  obtain ⟨hb16, hb⟩ := hdigit b hb (h b (by simp))
  have hoctet : (octet a b).toNat = hexValue a * 16 + hexValue b :=
    Utf8.toNat_toUInt8 (by omega)
  have hhigh : (hexValue a * 16 + hexValue b) / 16 = hexValue a := by omega
  have hlow : (hexValue a * 16 + hexValue b) % 16 = hexValue b := by omega
  rw [triplet, hoctet, hhigh, hlow, ha, hb]

/-- Triplets in capitals are the triplets of their octets. -/
lemma eq_flatMap_triplet {u : Text} {bs : List UInt8} (h : Grammar.Triplets u bs)
    (hu : InCapitals u) : u = bs.flatMap triplet := by
  induction h with
  | nil => rfl
  | cons ha hb _ ih =>
    rw [List.flatMap_cons, triplet_octet ha hb fun c hc => hu c (by simp at hc ⊢; tauto),
      ← ih fun c hc => hu c (by simp [hc])]
    rfl

lemma inCapitals_escape (c : CodePoint) : InCapitals (escape c) := by
  have hdigit : ∀ n < 16, ¬ (0x61 ≤ (hexUpper n).val ∧ (hexUpper n).val ≤ 0x66) := by decide
  have hpercent : ¬ (0x61 ≤ (CodePoint.ofChar '%').val ∧ (CodePoint.ofChar '%').val ≤ 0x66) := by
    decide
  intro d hd
  obtain ⟨b, -, hd⟩ := List.mem_flatMap.mp hd
  have hb := b.toNat_lt
  simp only [triplet, List.mem_cons, List.not_mem_nil, or_false] at hd
  rcases hd with rfl | rfl | rfl
  · exact hpercent
  · exact hdigit _ (by omega)
  · exact hdigit _ (by omega)

lemma exists_triplets_of_append {cs bs : List UInt8} {t : Text}
    (h : Grammar.Triplets (cs.flatMap triplet ++ t) bs) : ∃ bs', Grammar.Triplets t bs' := by
  induction cs generalizing bs with
  | nil => exact ⟨bs, h⟩
  | cons b cs ih =>
    rw [List.flatMap_cons, List.append_assoc] at h
    cases h with
    | cons _ _ h => exact ih h

lemma encode_append (s t : Text) :
    encode false allowed (s ++ t) = encode false allowed s ++ encode false allowed t := by
  rw [encode_false, encode_false, encode_false, List.flatMap_append]

/-- What was encoded can be parted where its octets are. -/
theorem encode_parts (hp : allowed '%' = false)
    (hex : ∀ c, CharClass.hexDigit.admits c = true → allowed c = true) {d₁ d₂ l t : Text}
    (h : encode false allowed (d₁ ++ d₂) = l ++ t) (hl : Spelled allowed l)
    (ho : d₁.flatMap Utf8.encode = octets l) :
    encode false allowed d₁ = l ∧ encode false allowed d₂ = t := by
  rw [encode_append] at h
  refine (spelled_encode hex false d₁).eq_of_octets hp hl h ?_
  rw [octets_encode hp, ho]

lemma encode_eq_flatMap_escape {d : Text} (h : ∀ c ∈ d, allowed c = false) :
    encode false allowed d = d.flatMap escape := by
  rw [encode_false]
  refine List.flatMap_congr fun c hc => ?_
  rw [encodeChar_eq, h c hc]
  rfl

/-- Where only triplets are written, no character stood for itself. -/
lemma not_allowed_of_triplets (hp : allowed '%' = false) {d : Text} {bs : List UInt8}
    (h : Grammar.Triplets (encode false allowed d) bs) : ∀ c ∈ d, allowed c = false := by
  rw [encode_false] at h
  induction d generalizing bs with
  | nil => simp
  | cons c d ih =>
    rw [List.flatMap_cons, encodeChar_eq] at h
    split_ifs at h with hc
    · generalize d.flatMap (encodeChar allowed) = t at h
      cases h
      simp [hp] at hc
    · obtain ⟨bs', h'⟩ := exists_triplets_of_append h
      exact List.forall_mem_cons.mpr ⟨by simpa using hc, ih h'⟩

/-- The text is what encoding writes for one without surrogates. -/
def IsEncoded (allowed : CodePoint → Bool) (t : Text) : Prop :=
  ∃ d, (∀ c ∈ d, c.isSurrogate = false) ∧ encode false allowed d = t

lemma IsEncoded.append {t u : Text} (ht : IsEncoded allowed t) (hu : IsEncoded allowed u) :
    IsEncoded allowed (t ++ u) := by
  obtain ⟨d, hd, rfl⟩ := ht
  obtain ⟨e, he, rfl⟩ := hu
  exact ⟨d ++ e, fun c hc => (List.mem_append.mp hc).elim (hd c) (he c), encode_append d e⟩

/-- Such a text is what its own decoding is encoded to. -/
lemma isEncoded_iff (hp : allowed '%' = false) {t : Text} :
    IsEncoded allowed t ↔ ∃ d, decode? t = some d ∧ encode false allowed d = t := by
  constructor
  · rintro ⟨d, hd, rfl⟩
    exact ⟨d, decode?_encode hp hd, rfl⟩
  · rintro ⟨d, hd, ht⟩
    exact ⟨d, (Utf8.decode?_eq_some_iff.mp hd).1, ht⟩

/-- **A run of triplets** is what encoding writes exactly if its octets are well-formed, none of the
characters that they write is allowed to stand for itself, and its hexadecimal digits are
capitals. -/
theorem isEncoded_run_iff (hp : allowed '%' = false) {u : Text} {bs : List UInt8}
    (hu : Grammar.Triplets u bs) : IsEncoded allowed u ↔
      (∃ d, decode? u = some d ∧ ∀ c ∈ d, allowed c = false) ∧ InCapitals u := by
  constructor
  · rintro ⟨d, hd, rfl⟩
    have hallowed := not_allowed_of_triplets hp hu
    refine ⟨⟨d, decode?_encode hp hd, hallowed⟩, ?_⟩
    rw [encode_eq_flatMap_escape hallowed]
    intro c hc
    obtain ⟨e, -, hc⟩ := List.mem_flatMap.mp hc
    exact inCapitals_escape e c hc
  · rintro ⟨⟨d, hd, hallowed⟩, hcapitals⟩
    obtain ⟨hs, hoctets⟩ := Utf8.decode?_eq_some_iff.mp hd
    refine ⟨d, hs, ?_⟩
    calc encode false allowed d = d.flatMap escape := encode_eq_flatMap_escape hallowed
      _ = (d.flatMap Utf8.encode).flatMap triplet := List.flatMap_assoc.symm
      _ = u := by rw [hoctets, octets_of_triplets hu, ← eq_flatMap_triplet hu hcapitals]

end Percent

end UriTemplate

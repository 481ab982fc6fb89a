import UriTemplate.Proofs.Grammar

/-!
Names as they are written. A name is a text in ASCII, and what it is when its triplets are read has
the same octets and no surrogates: it is what percent-decoding makes of the name.
-/

namespace UriTemplate

lemma CodePoint.isSurrogate_of_isAscii {c : CodePoint} (h : c.isAscii = true) :
    c.isSurrogate = false := by
  simp [isAscii] at h
  rw [Utf8.isSurrogate_eq_false]
  omega

namespace Grammar

/-- A text in ASCII whose octets are those of another one without surrogates, whatever follows. -/
structure Writes (u d : Text) : Prop where
  ascii : ∀ c ∈ u, c.isAscii = true
  scalars : ∀ c ∈ d, c.isSurrogate = false
  octets : ∀ s, Percent.octets (u ++ s) = d.flatMap Utf8.encode ++ Percent.octets s

namespace Writes

lemma nil : Writes [] [] := ⟨by simp, by simp, fun _ => rfl⟩

lemma append {u v d e : Text} (hu : Writes u d) (hv : Writes v e) : Writes (u ++ v) (d ++ e) := by
  refine ⟨?_, ?_, fun s => ?_⟩
  · simpa [or_imp, forall_and] using ⟨hu.ascii, hv.ascii⟩
  · simpa [or_imp, forall_and] using ⟨hu.scalars, hv.scalars⟩
  · rw [List.append_assoc, hu.octets, hv.octets, List.flatMap_append, List.append_assoc]

/-- A character that stands for itself. -/
lemma self {c : CodePoint} (hc : c.isAscii = true) (hp : c ≠ '%') : Writes [c] [c] := by
  refine ⟨by simpa using hc, by simpa using CodePoint.isSurrogate_of_isAscii hc, fun s => ?_⟩
  simp [Percent.octets_cons hp]

lemma octets_eq {u d : Text} (h : Writes u d) : Percent.octets u = d.flatMap Utf8.encode := by
  have hnil := h.octets []
  rwa [List.append_nil, Percent.octets, List.append_nil] at hnil

/-- Percent-decoding reads what is written. -/
theorem decode?_eq {u d : Text} (h : Writes u d) : Percent.decode? u = some d := by
  rw [Percent.decode?, h.octets_eq, Utf8.decode?_flatMap_encode h.scalars]

end Writes

lemma octets_triplets {u : Text} {bs : List UInt8} (h : Triplets u bs) (s : Text) :
    Percent.octets (u ++ s) = bs ++ Percent.octets s := by
  induction h with
  | nil => rfl
  | @cons a b u bs ha hb _ ih =>
    have ht : Percent.isTriplet '%' a b = true := Percent.isTriplet_iff.mpr ⟨rfl, ha, hb⟩
    simp [Percent.octets, ht, ih]

lemma ascii_triplets {u : Text} {bs : List UInt8} (h : Triplets u bs) :
    ∀ c ∈ u, c.isAscii = true := by
  induction h with
  | nil => simp
  | cons ha hb _ ih =>
    have hp : CodePoint.isAscii '%' = true := rfl
    simpa [hp, CharClass.isAscii_of_hexDigit ha, CharClass.isAscii_of_hexDigit hb] using ih

lemma writes_varchar {u : Text} {c : CodePoint} (h : Varchar u c) : Writes u [c] := by
  cases h with
  | plain hc =>
    have hu := CharClass.unreserved_of_varchar hc
    refine .self (CharClass.isAscii_of_unreserved hu) ?_
    rintro rfl
    simp [CharClass.unreserved_percent] at hu
  | @encoded _ c hu =>
    refine ⟨ascii_triplets hu, by simpa using Utf8.isSurrogate_ofChar c, fun s => ?_⟩
    rw [octets_triplets hu, List.flatMap_singleton, Utf8.encode_ofChar]

lemma writes_dotted {u t : Text} (h : Dotted u t) : Writes u t := by
  cases h with
  | plain h => exact writes_varchar h
  | dot h => exact .append (.self (by decide) (by decide)) (writes_varchar h)

lemma writes_nameRest {u t : Text} (h : NameRest u t) : Writes u t := by
  induction h with
  | nil => exact .nil
  | cons h _ ih => exact (writes_dotted h).append ih

/-- **A name** writes what it is when its triplets are read. -/
theorem writes_varname {u d : Text} (h : Varname u d) : Writes u d := by
  obtain ⟨hc, hs⟩ := h
  exact (writes_varchar hc).append (writes_nameRest hs)

/-- A name of the grammar, and what percent-decoding makes of it. -/
def Named (u d : Text) : Prop := (∃ e, Varname u e) ∧ Percent.decode? u = some d

/-- What a name is when its triplets are read is what percent-decoding makes of it. -/
theorem named_iff {u d : Text} : Named u d ↔ Varname u d := by
  constructor
  · rintro ⟨⟨e, he⟩, hd⟩
    rw [(writes_varname he).decode?_eq] at hd
    cases hd
    exact he
  · intro h
    exact ⟨⟨d, h⟩, (writes_varname h).decode?_eq⟩

/-! ### Characters of names -/

lemma spelled_triplets {allowed : CodePoint → Bool}
    (hex : ∀ c, CharClass.hexDigit.admits c = true → allowed c = true) {u : Text} {bs : List UInt8}
    (h : Triplets u bs) : Percent.Spelled allowed u := by
  induction h with
  | nil => trivial
  | cons ha hb _ ih =>
    exact (Percent.spelled_of_isTriplet hex (Percent.isTriplet_iff.mpr ⟨rfl, ha, hb⟩)).append ih

lemma spelled_varchar {u : Text} {c : CodePoint} (h : Varchar u c) :
    Percent.Spelled CharClass.unreserved.admits u := by
  cases h with
  | plain hc => exact Percent.spelled_singleton (CharClass.unreserved_of_varchar hc)
  | encoded hu => exact spelled_triplets (fun c => CharClass.unreserved_of_hexDigit) hu

lemma spelled_dotted {u t : Text} (h : Dotted u t) :
    Percent.Spelled CharClass.unreserved.admits u := by
  cases h with
  | plain h => exact spelled_varchar h
  | dot h => exact ⟨.inl rfl, spelled_varchar h⟩

lemma spelled_nameRest {u t : Text} (h : NameRest u t) :
    Percent.Spelled CharClass.unreserved.admits u := by
  induction h with
  | nil => trivial
  | cons h _ ih => exact (spelled_dotted h).append ih

/-- A name is spelled with unreserved characters. -/
lemma spelled_varname {u d : Text} (h : Varname u d) :
    Percent.Spelled CharClass.unreserved.admits u := by
  obtain ⟨hc, hs⟩ := h
  exact (spelled_varchar hc).append (spelled_nameRest hs)

end Grammar

end UriTemplate

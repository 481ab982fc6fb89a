import UriTemplate.Proofs.Reading
import UriTemplate.Proofs.Runs

/-!
One character out of a run of triplets. Reading goes from one octet to the next and takes a
character as soon as there is one, which is where the shortest well-formed part of the run ends: no
well-formed text begins with an ill-formed part of a character. What is taken is, but for the case
of its hexadecimal digits, what is written for the character, so that no surrogate and no overlong
form is ever taken.
-/

namespace UriTemplate.Percent

open Grammar (Triplets)
open Cursor (past_seek_iff eq_seek_of_past)

/-- A small hexadecimal letter as a capital. Any other character stays as it is. -/
def capital (c : CodePoint) : CodePoint :=
  if h : 0x61 ≤ c.val ∧ c.val ≤ 0x66 then ⟨c.val - 0x20, by omega⟩ else c

/-- From one position of a text to another stands what is written for a character that is no
surrogate, with hexadecimal letters of either case. -/
structure Spells (s : Text) (i e : Nat) (c : CodePoint) : Prop where
  le_length : e ≤ s.length
  scalar : c.isSurrogate = false
  escaped : ((s.take e).drop i).map capital = escape c

/-- From one position of a text to another stand triplets, and their octets are well-formed. -/
def Decodes (s : Text) (i e : Nat) : Prop :=
  ∃ u bs d, (Cursor.seek s i).Past u (.seek s e) ∧ Triplets u bs ∧ bs ≠ [] ∧
    Utf8.decode? bs = some d

/-! ### Capitals -/

lemma val_capital (c : CodePoint) :
    (capital c).val = if 0x61 ≤ c.val ∧ c.val ≤ 0x66 then c.val - 0x20 else c.val := by
  unfold capital
  split_ifs <;> rfl

lemma hexDigit_iff {c : CodePoint} : CharClass.hexDigit.admits c = true ↔
    (0x30 ≤ c.val ∧ c.val ≤ 0x39) ∨ (0x41 ≤ c.val ∧ c.val ≤ 0x46) ∨
      (0x61 ≤ c.val ∧ c.val ≤ 0x66) := by
  simp [CharClass.admits, CharClass.holds, CharClass.isHexDigit, CharClass.isDigit,
    CharClass.between, or_assoc]

lemma hexDigit_capital {c : CodePoint} :
    CharClass.hexDigit.admits (capital c) = true ↔ CharClass.hexDigit.admits c = true := by
  rw [hexDigit_iff, hexDigit_iff, val_capital]
  split_ifs <;> omega

lemma hexValue_capital (c : CodePoint) : hexValue (capital c) = hexValue c := by
  unfold hexValue
  rw [val_capital]
  split_ifs <;> omega

lemma capital_eq_percent {c : CodePoint} : capital c = '%' ↔ c = '%' := by
  have hp : (CodePoint.ofChar '%').val = 0x25 := rfl
  constructor
  · intro h
    have hv := congrArg CodePoint.val h
    rw [val_capital, hp] at hv
    refine CodePoint.ext ?_
    rw [hp]
    split_ifs at hv <;> omega
  · rintro rfl
    rfl

lemma octet_capital (a b : CodePoint) : octet (capital a) (capital b) = octet a b := by
  rw [octet, octet, hexValue_capital, hexValue_capital]

lemma triplet_octet_capital {a b : CodePoint} (ha : CharClass.hexDigit.admits a = true)
    (hb : CharClass.hexDigit.admits b = true) :
    triplet (octet a b) = [.ofChar '%', capital a, capital b] := by
  have hcapitals : InCapitals [capital a, capital b] := by
    have hcapital : ∀ c, ¬ (0x61 ≤ (capital c).val ∧ (capital c).val ≤ 0x66) := by
      intro c
      rw [val_capital]
      split_ifs <;> omega
    intro c hc
    simp only [List.mem_cons, List.not_mem_nil, or_false] at hc
    rcases hc with rfl | rfl
    · exact hcapital a
    · exact hcapital b
  rw [← octet_capital,
    triplet_octet (hexDigit_capital.mpr ha) (hexDigit_capital.mpr hb) hcapitals]

/-- **Triplets that write octets** are, in capitals, the triplets of these octets. -/
theorem triplets_iff {u : Text} {bs : List UInt8} :
    Triplets u bs ↔ u.map capital = bs.flatMap triplet := by
  constructor
  · intro h
    induction h with
    | nil => rfl
    | @cons a b u bs ha hb _ ih =>
      rw [List.flatMap_cons, triplet_octet_capital ha hb, ← ih]
      rfl
  · intro h
    induction bs generalizing u with
    | nil =>
      rw [List.flatMap_nil, List.map_eq_nil_iff] at h
      rw [h]
      exact .nil
    | cons b bs ih =>
      have hb := b.toNat_lt
      simp only [List.flatMap_cons, triplet, List.cons_append, List.nil_append] at h
      obtain ⟨p, u, rfl, hp, h⟩ := List.map_eq_cons_iff.mp h
      obtain ⟨x, u, rfl, hx, h⟩ := List.map_eq_cons_iff.mp h
      obtain ⟨y, u, rfl, hy, h⟩ := List.map_eq_cons_iff.mp h
      have hxdigit : CharClass.hexDigit.admits x = true := by
        rw [← hexDigit_capital, hx]
        exact hexDigit_hexUpper _ (by omega)
      have hydigit : CharClass.hexDigit.admits y = true := by
        rw [← hexDigit_capital, hy]
        exact hexDigit_hexUpper _ (by omega)
      have hoctet : octet x y = b := by
        rw [← octet_capital, hx, hy, octet_hexUpper]
      rw [capital_eq_percent.mp hp, ← hoctet]
      exact .cons hxdigit hydigit (ih h)

/-- The triplets of the first octets stand in front of the others. -/
lemma exists_triplets_append {u : Text} {xs ys : List UInt8} (h : Triplets u (xs ++ ys)) :
    ∃ v w, u = v ++ w ∧ Triplets v xs ∧ Triplets w ys := by
  rw [triplets_iff, List.flatMap_append] at h
  obtain ⟨v, w, rfl, hv, hw⟩ := List.map_eq_append_iff.mp h
  exact ⟨v, w, rfl, triplets_iff.mpr hv, triplets_iff.mpr hw⟩

/-! ### Reading -/

/-- **What is taken** are the triplets of the UTF-8 form of a character. -/
theorem scalar?_iff {k k' : Cursor} {c : CodePoint} : scalar? k = some (c, k') ↔
    ∃ u, k.Past u k' ∧ Triplets u (Utf8.encode c) ∧ c.isSurrogate = false := by
  constructor
  · intro h
    obtain ⟨u, bs, hu, hbs, hc⟩ := Production.scalarFrom_sound h
    obtain ⟨hscalar, rfl⟩ := Utf8.eq_encode_of_complete? hc
    exact ⟨u, hu, hbs, hscalar⟩
  · rintro ⟨u, ⟨hrest, hpos⟩, hu, hscalar⟩
    have hread := Production.scalarFrom_complete hu (Utf8.complete?_encode hscalar) k.pos k'.rest
    rw [scalar?, hrest, hread, ← hpos]

lemma spells_iff {s : Text} {i e : Nat} {c : CodePoint} : Spells s i e c ↔
    ∃ u, (Cursor.seek s i).Past u (.seek s e) ∧ Triplets u (Utf8.encode c) ∧
      c.isSurrogate = false := by
  have hne : ∀ u : Text, u.map capital = escape c → u ≠ [] := by
    rintro u hu rfl
    exact escape_ne_nil c hu.symm
  constructor
  · rintro ⟨he, hscalar, hescaped⟩
    refine ⟨_, (past_seek_iff ?_).mpr ⟨he, rfl⟩, triplets_iff.mpr hescaped, hscalar⟩
    exact hne _ hescaped
  · rintro ⟨u, hu, ht, hscalar⟩
    have hescaped := triplets_iff.mp ht
    obtain ⟨he, rfl⟩ := (past_seek_iff (hne u hescaped)).mp hu
    exact ⟨he, hscalar, hescaped⟩

lemma scalar?_seek_iff {s : Text} {i e : Nat} {c : CodePoint} :
    scalar? (.seek s i) = some (c, .seek s e) ↔ Spells s i e c := by
  rw [scalar?_iff, spells_iff]

lemma Spells.unique {s : Text} {i e e' : Nat} {c c' : CodePoint} (h : Spells s i e c)
    (h' : Spells s i e' c') : e = e' ∧ c = c' := by
  have hread := scalar?_seek_iff.mpr h
  rw [scalar?_seek_iff.mpr h'] at hread
  simp only [Cursor.seek, Option.some.injEq, Prod.mk.injEq, Cursor.mk.injEq] at hread
  exact ⟨hread.2.1.symm, hread.1.symm⟩

lemma Spells.of_take {s s' : Text} {i e : Nat} {c : CodePoint} (h : Spells s i e c)
    (hs : s'.take e = s.take e) : Spells s' i e c := by
  have hlength := congrArg List.length hs
  rw [List.length_take, List.length_take, Nat.min_eq_left h.le_length] at hlength
  exact ⟨by omega, h.scalar, by rw [hs, h.escaped]⟩

/-! ### The shortest well-formed run -/

lemma Spells.decodes {s : Text} {i e : Nat} {c : CodePoint} (h : Spells s i e c) :
    Decodes s i e := by
  obtain ⟨u, hu, ht, hscalar⟩ := spells_iff.mp h
  refine ⟨u, _, [c], hu, ht, Utf8.encode_ne_nil c, ?_⟩
  have hdecode := Utf8.decode?_flatMap_encode (s := [c]) (by simpa using hscalar)
  rwa [List.flatMap_singleton] at hdecode

/-- A well-formed run begins with a character. -/
lemma Decodes.exists_spells {s : Text} {i e : Nat} (h : Decodes s i e) :
    ∃ e' ≤ e, ∃ c, Spells s i e' c := by
  obtain ⟨u, bs, d, hu, ht, hne, hd⟩ := h
  obtain ⟨hscalar, rfl⟩ := Utf8.decode?_eq_some_iff.mp hd
  rcases d with _ | ⟨c, d⟩
  · exact absurd rfl hne
  · rw [List.flatMap_cons] at ht
    obtain ⟨v, w, rfl, hv, -⟩ := exists_triplets_append ht
    obtain ⟨hrest, hpos⟩ := hu
    have hpast : (Cursor.seek s i).Past v ⟨i + v.length, w ++ (Cursor.seek s e).rest⟩ :=
      ⟨by rw [hrest, List.append_assoc], rfl⟩
    rw [eq_seek_of_past hpast] at hpast
    refine ⟨i + v.length, ?_, c, spells_iff.mpr ⟨v, hpast, hv, hscalar c (by simp)⟩⟩
    simp only [Cursor.seek, List.length_append] at hpos
    omega

lemma length_encode_le (c : CodePoint) : (Utf8.encode c).length ≤ 4 := by
  unfold Utf8.encode
  dsimp only
  split_ifs <;> simp

/-- It is taken up to the end of its shortest well-formed part, four triplets at most. -/
lemma Spells.isLeast {s : Text} {i e : Nat} {c : CodePoint} (h : Spells s i e c) :
    IsLeast {e | Decodes s i e} e ∧ e ≤ i + 12 := by
  refine ⟨⟨h.decodes, ?_⟩, ?_⟩
  · intro e' he'
    obtain ⟨e'', hle, c', h'⟩ := he'.exists_spells
    obtain ⟨rfl, -⟩ := h.unique h'
    exact hle
  · have hlength := congrArg List.length h.escaped
    have hwidth := length_encode_le c
    rw [List.length_map, List.length_drop, List.length_take, Nat.min_eq_left h.le_length,
      length_escape] at hlength
    omega

/-- **One character from triplets**: it is read, and the place after it is reached, exactly if what
stands up to there is, in capitals, what is written for the character, which is no surrogate. There
is at most one such place and character, and what stands after the place does not matter. Of the
well-formed runs of triplets ahead the shortest is taken, and nothing is taken exactly if there is
none. -/
theorem scalar?_outcome (s : Text) (i : Nat) :
    (∀ c k, scalar? (.seek s i) = some (c, k) ↔ ∃ e, k = .seek s e ∧ Spells s i e c) ∧
      (∀ e c e' c', Spells s i e c → Spells s i e' c' → e = e' ∧ c = c') ∧
      (∀ e c s', Spells s i e c → s'.take e = s.take e →
        scalar? (.seek s' i) = some (c, .seek s' e)) ∧
      (∀ e c, Spells s i e c → IsLeast {e | Decodes s i e} e ∧ e ≤ i + 12) ∧
      (scalar? (.seek s i) = none ↔ ∀ e, ¬ Decodes s i e) := by
  have hread : ∀ c k, scalar? (.seek s i) = some (c, k) ↔ ∃ e, k = .seek s e ∧ Spells s i e c := by
    intro c k
    constructor
    · intro h
      obtain ⟨u, hu, -⟩ := scalar?_iff.mp h
      obtain rfl := eq_seek_of_past hu
      exact ⟨_, rfl, scalar?_seek_iff.mp h⟩
    · rintro ⟨e, rfl, h⟩
      exact scalar?_seek_iff.mpr h
  refine ⟨hread, fun e c e' c' => Spells.unique, fun e c s' h hs => ?_,
    fun e c => Spells.isLeast, ?_⟩
  · exact scalar?_seek_iff.mpr (h.of_take hs)
  · constructor
    · intro hnone e h
      obtain ⟨e', -, c, hc⟩ := h.exists_spells
      rw [scalar?_seek_iff.mpr hc] at hnone
      cases hnone
    · intro h
      rcases hscalar : scalar? (.seek s i) with _ | ⟨c, k⟩
      · rfl
      · obtain ⟨e, -, hc⟩ := (hread c k).mp hscalar
        exact absurd hc.decodes (h e)

/-- Letters of either case, and a triplet after the character; a surrogate is not read. -/
example : scalar? (.seek (lit "x%c3%A9%41") 1) = some (.ofChar 'é', ⟨7, lit "%41"⟩) ∧
    scalar? (.seek (lit "%ED%A0%80%41") 0) = none := by decide

end UriTemplate.Percent

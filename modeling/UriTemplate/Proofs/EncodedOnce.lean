import UriTemplate.Proofs.Runs
import UriTemplate.Proofs.Unbound

/-!
Sources without expressions, decoded and encoded again. Such a source expands to itself in ASCII.
What its expansion is when its triplets are read is encoded to the same expansion exactly if each
longest run of triplets in the source is what encoding writes. Each run is judged by itself: what
stands around it in the source, escaped or not, neither mends nor spoils it.
-/

namespace UriTemplate

/-! ### Texts in ASCII -/

namespace Text

lemma asciiForm_cons (c : CodePoint) (s : Text) :
    asciiForm (c :: s) = (if c.isAscii then [c] else Percent.escape c) ++ asciiForm s :=
  List.flatMap_cons

lemma asciiForm_triplet {p a b : CodePoint} (h : Percent.isTriplet p a b = true) (s : Text) :
    asciiForm (p :: a :: b :: s) = p :: a :: b :: asciiForm s := by
  obtain ⟨rfl, ha, hb⟩ := Percent.isTriplet_iff.mp h
  have hp : CodePoint.isAscii '%' = true := rfl
  rw [asciiForm_cons, asciiForm_cons, asciiForm_cons, if_pos hp,
    if_pos (CharClass.isAscii_of_hexDigit ha), if_pos (CharClass.isAscii_of_hexDigit hb)]
  rfl

/-- A hexadecimal digit is no percent sign, with which all that is escaped begins. -/
lemma eq_cons_of_asciiForm {s t : Text} {a : CodePoint} (h : s.asciiForm = a :: t)
    (ha : CharClass.hexDigit.admits a = true) : ∃ r : Text, s = a :: r ∧ r.asciiForm = t := by
  rcases s with _ | ⟨c, s⟩
  · cases h
  · rw [asciiForm_cons] at h
    split_ifs at h with hc
    · obtain ⟨rfl, hs⟩ := List.cons.inj h
      exact ⟨s, rfl, hs⟩
    · obtain ⟨b, bs, hb⟩ := List.exists_cons_of_ne_nil (Utf8.encode_ne_nil c)
      rw [Percent.escape, hb, List.flatMap_cons] at h
      obtain ⟨rfl, -⟩ := List.cons.inj h
      simp [Percent.hexDigit_percent] at ha

lemma tripletAhead_of_asciiForm {c : CodePoint} {s : Text}
    (h : Percent.TripletAhead (c :: s.asciiForm)) : Percent.TripletAhead (c :: s) := by
  obtain ⟨p, a, b, r, hs, ht⟩ := h
  obtain ⟨-, ha, hb⟩ := Percent.isTriplet_iff.mp ht
  obtain ⟨rfl, ha'⟩ := List.cons.inj hs
  obtain ⟨t, rfl, hb'⟩ := eq_cons_of_asciiForm ha' ha
  obtain ⟨t, rfl, -⟩ := eq_cons_of_asciiForm hb' hb
  exact ⟨c, a, b, t, rfl, ht⟩

/-- **Octets** are those of the text in ASCII. -/
theorem octets_asciiForm (s : Text) : Percent.octets s.asciiForm = Percent.octets s := by
  induction s using Percent.scan_induction with
  | nil => rfl
  | triplet p a b s h ih =>
    rw [asciiForm_triplet h, Percent.octets_of_triplet h, Percent.octets_of_triplet h, ih]
  | char c s h ih =>
    rw [Percent.octets_of_char h, asciiForm_cons, ← ih]
    split_ifs with hc
    · exact Percent.octets_of_char fun ht => h (tripletAhead_of_asciiForm ht)
    · exact Percent.octets_escape c _

end Text

/-! ### Runs of a text and of its parts -/

namespace Percent

/-- Some triplets at the front are a longest run of triplets, or there is none. -/
lemma exists_front (s : Text) : ∃ u r bs, s = u ++ r ∧ Grammar.Triplets u bs ∧
    ¬ TripletAhead r := by
  induction s using scan_induction with
  | nil =>
    refine ⟨[], [], [], rfl, .nil, ?_⟩
    rintro ⟨p, a, b, r, h, -⟩
    cases h
  | triplet p a b s h ih =>
    obtain ⟨u, r, bs, rfl, hu, hr⟩ := ih
    obtain ⟨rfl, ha, hb⟩ := isTriplet_iff.mp h
    exact ⟨'%' :: a :: b :: u, r, _, rfl, .cons ha hb hu, hr⟩
  | char c s h _ => exact ⟨[], c :: s, [], rfl, .nil, h⟩

lemma not_tripletBehind_nil : ¬ TripletBehind [] := by
  rintro ⟨l, p, a, b, h, -⟩
  simp at h

/-- A character that begins no triplet is no matter to the runs after it. -/
lemma IsRun.cons {c : CodePoint} {s u : Text} (h : IsRun s u) (hc : ¬ TripletAhead (c :: s)) :
    IsRun (c :: s) u := by
  obtain ⟨hne, hu, l, r, rfl, hl, hr⟩ := h
  refine ⟨hne, hu, c :: l, r, rfl, ?_, hr⟩
  rintro ⟨m, p, a, b, hm, ht⟩
  rcases m with _ | ⟨d, m⟩
  · cases hm
    exact hc ⟨_, _, _, _, rfl, ht⟩
  · cases hm
    exact hl ⟨m, p, a, b, rfl, ht⟩

lemma not_tripletBehind_append {u l : Text} {bs : List UInt8} (hu : Grammar.Triplets u bs)
    (hne : l ≠ []) (hl : ¬ TripletBehind l) : ¬ TripletBehind (u ++ l) := by
  induction hu with
  | nil => exact hl
  | @cons a b u bs ha hb _ ih =>
    rintro ⟨m, p, x, y, hm, ht⟩
    obtain ⟨rfl, hx, hy⟩ := isTriplet_iff.mp ht
    match m with
    | [] =>
      simp only [List.cons_append, List.nil_append, List.cons.injEq, List.append_eq_nil_iff] at hm
      exact hne hm.2.2.2.2
    | [_] =>
      simp only [List.cons_append, List.nil_append, List.cons.injEq] at hm
      obtain ⟨-, rfl, -⟩ := hm
      simp [hexDigit_percent] at ha
    | [_, _] =>
      simp only [List.cons_append, List.nil_append, List.cons.injEq] at hm
      obtain ⟨-, -, rfl, -⟩ := hm
      simp [hexDigit_percent] at hb
    | _ :: _ :: _ :: m =>
      simp only [List.cons_append, List.cons.injEq] at hm
      exact ih ⟨m, '%', x, y, hm.2.2.2, ht⟩

/-- Neither is a longest run to the runs after it. -/
lemma IsRun.append {u r v : Text} {bs : List UInt8} (h : IsRun r v) (hu : Grammar.Triplets u bs)
    (hr : ¬ TripletAhead r) : IsRun (u ++ r) v := by
  obtain ⟨hne, ⟨cs, hv⟩, l, r, rfl, hl, hr'⟩ := h
  have hl' : l ≠ [] := by
    rintro rfl
    cases hv with
    | nil => exact hne rfl
    | cons ha hb => exact hr ⟨_, _, _, _, rfl, isTriplet_iff.mpr ⟨rfl, ha, hb⟩⟩
  refine ⟨hne, ⟨cs, hv⟩, u ++ l, r, by rw [List.append_assoc], ?_, hr'⟩
  exact not_tripletBehind_append hu hl' hl

end Percent

/-! ### Sources without expressions -/

lemma CharClass.isAscii_of_unreservedOrReserved {c : CodePoint}
    (h : unreservedOrReserved.admits c = true) : c.isAscii = true := by
  simp [admits, holds, isUnreserved, isReserved, isAlpha, isDigit, between, among,
    unreservedMarks, genDelims, subDelims, CodePoint.isAscii] at h ⊢
  omega

namespace Grammar

lemma spelled_source {s : Text} {xs : List Term} (h : Source s xs)
    (hl : ∀ x ∈ xs, x.isLiteral = true) : Percent.Spelled plain s := by
  induction h with
  | nil => trivial
  | @cons u s x xs hx _ ih =>
    obtain ⟨hliteral, hrest⟩ := List.forall_mem_cons.mp hl
    cases hx with
    | literal hu => exact (spelled_literal hu).append (ih hrest)
    | expression => cases hliteral

end Grammar

namespace Percent

/-- The text is what encoding writes where reserved characters are kept. -/
abbrev IsEncodedUri : Text → Prop := IsEncoded CharClass.unreservedOrReserved.admits

lemma unreservedOrReserved_percent : CharClass.unreservedOrReserved.admits '%' = false := by decide

lemma unreservedOrReserved_of_hexDigit {c : CodePoint} (h : CharClass.hexDigit.admits c = true) :
    CharClass.unreservedOrReserved.admits c = true :=
  CharClass.unreservedOrReserved_of_unreserved (CharClass.unreserved_of_hexDigit h)

/-- A character outside triplets is written in ASCII as encoding writes it. -/
lemma isEncodedUri_plain {c : CodePoint} (h : Grammar.plain c = true) :
    IsEncodedUri (if c.isAscii then [c] else escape c) := by
  rw [Grammar.plain, Bool.or_eq_true, Bool.and_eq_true, Bool.not_eq_true', Bool.not_eq_true'] at h
  rcases h with h | ⟨hascii, hs⟩
  · have hascii := CharClass.isAscii_of_literal h
    rw [if_pos hascii]
    refine ⟨[c], by simpa using CodePoint.isSurrogate_of_isAscii hascii, encode_of_forall ?_⟩
    simpa using CharClass.unreservedOrReserved_of_literal h
  · have hnot : CharClass.unreservedOrReserved.admits c = false := by
      by_contra hallowed
      have := CharClass.isAscii_of_unreservedOrReserved (by simpa using hallowed)
      simp [hascii] at this
    rw [hascii]
    refine ⟨[c], by simpa using hs, ?_⟩
    rw [encode_eq_flatMap_escape (by simpa using hnot), List.flatMap_singleton]
    rfl

lemma spelled_asciiForm {s : Text} (h : Spelled Grammar.plain s) :
    Spelled CharClass.unreservedOrReserved.admits s.asciiForm := by
  have hex := fun c => @unreservedOrReserved_of_hexDigit c
  induction s using scan_induction with
  | nil => trivial
  | triplet p a b s ht ih =>
    rw [Text.asciiForm_triplet ht]
    exact (spelled_of_isTriplet hex ht).append (ih h.2.2.2)
  | char c s hc ih =>
    rw [Text.asciiForm_cons]
    refine Spelled.append ?_ (ih h.2)
    obtain ⟨d, -, hd⟩ := isEncodedUri_plain (h.allowed_of_char hc)
    rw [← hd]
    exact spelled_encode hex false d

/-- **Each longest run** is what encoding writes if the whole text in ASCII is. -/
theorem IsEncoded.run {s u : Text} (hs : Spelled Grammar.plain s) (hu : IsRun s u)
    (h : IsEncodedUri s.asciiForm) : IsEncodedUri u := by
  have hp := unreservedOrReserved_percent
  have hex := fun c => @unreservedOrReserved_of_hexDigit c
  obtain ⟨hne, ⟨bs, hbs⟩, l, r, rfl, hl, hr⟩ := hu
  obtain ⟨d, hd, hencode⟩ := h
  have hoctets : d.flatMap Utf8.encode = octets (l ++ (u ++ r)) := by
    rw [← octets_encode hp, hencode, Text.octets_asciiForm]
  obtain ⟨d₁, d₂, d₃, rfl, h₁, h₂, h₃⟩ := exists_split_run hbs hne hl hr hoctets
  have hu : u.asciiForm = u := Text.asciiForm_of_isAscii (Grammar.ascii_triplets hbs)
  have hspelled := spelled_asciiForm hs
  rw [Text.asciiForm_append, Text.asciiForm_append, hu] at hencode hspelled
  -- the texts before the run have the same octets, and so have the runs
  obtain ⟨-, hrest⟩ := encode_parts hp hex hencode (hspelled.before_triplets hbs hne)
    (by rw [h₁, Text.octets_asciiForm])
  obtain ⟨hd₂, -⟩ := encode_parts hp hex hrest (Grammar.spelled_triplets hex hbs)
    (by rw [h₂, octets_of_triplets hbs])
  exact ⟨d₂, fun c hc => hd c (by simp [hc]), hd₂⟩

/-- **The whole text** in ASCII is, if each longest run is. -/
theorem isEncoded_asciiForm (s : Text) (hs : Spelled Grammar.plain s)
    (h : ∀ u, IsRun s u → IsEncodedUri u) : IsEncodedUri s.asciiForm := by
  match s with
  | [] => exact ⟨[], by simp, rfl⟩
  | c :: s =>
    by_cases hc : TripletAhead (c :: s)
    · obtain ⟨u, r, bs, heq, hu, hr⟩ := exists_front (c :: s)
      have hne : u ≠ [] := by
        rintro rfl
        rw [List.nil_append] at heq
        exact hr (heq ▸ hc)
      have hlength : r.length < (c :: s).length := by
        have := List.length_pos_iff.mpr hne
        rw [heq, List.length_append]
        omega
      rw [heq] at hs h ⊢
      have hrun : IsEncodedUri u := h u ⟨hne, ⟨bs, hu⟩, [], r, rfl, not_tripletBehind_nil, hr⟩
      have hrest := isEncoded_asciiForm r hs.of_append fun v hv => h v (hv.append hu hr)
      rw [Text.asciiForm_append, Text.asciiForm_of_isAscii (Grammar.ascii_triplets hu)]
      exact hrun.append hrest
    · have hrest := isEncoded_asciiForm s hs.2 fun v hv => h v (hv.cons hc)
      rw [Text.asciiForm_cons]
      exact (isEncodedUri_plain (hs.allowed_of_char hc)).append hrest
termination_by s.length
decreasing_by
  · exact hlength
  · exact Nat.lt_succ_self _

end Percent

namespace Template

open Expansion

/-- The source of a template without expressions is written in literals only. -/
lemma spelled_of_literals {t : Template} (ht : ∀ x ∈ t.terms, x.isLiteral = true) :
    Percent.Spelled Grammar.plain t.source := by
  obtain ⟨xs, hs, -, hxs⟩ := exists_items t.compiles
  refine Grammar.spelled_source hs ?_
  have hany := Term.any_fused (fun x => !x.isLiteral) (fun _ => rfl) xs
  have hnone : (t.terms.any fun x => !x.isLiteral) = false := by simpa using ht
  rw [hxs, hnone] at hany
  simpa using hany.symm

/-- Such a template expands to its source in ASCII, whatever it is expanded with. -/
theorem expand_literals {t : Template} (ht : ∀ x ∈ t.terms, x.isLiteral = true) {b : Bindings}
    {lookup : Lookup} (hb : b.lookup = .ok lookup) (o : Options) :
    (t.expand b o).result = .ok t.source.asciiForm := by
  have hown : t.source.withoutSpans = t.source :=
    Text.withoutSpans_of_not_mem (Grammar.not_mem_leftBrace (spelled_of_literals ht))
  rw [← hown, ← ownText_terms]
  refine result_of_after hb (after_terms_silent (fun op vs hx => ?_) [])
  cases ht _ hx

/-- **Encoded once**: a template without expressions expands to its source in ASCII, and this is
what its own decoding is encoded to exactly if, in each longest run of triplets in the source, the
octets are well-formed UTF-8 of characters that are neither unreserved nor reserved, and the
hexadecimal digits are capitals. -/
theorem encoded_once {t : Template} (ht : ∀ x ∈ t.terms, x.isLiteral = true) {b : Bindings}
    {lookup : Lookup} (hb : b.lookup = .ok lookup) (o : Options) :
    (t.expand b o).result = .ok t.source.asciiForm ∧
      ((∃ d, Percent.decode? t.source.asciiForm = some d ∧
          Percent.encode false CharClass.unreservedOrReserved.admits d = t.source.asciiForm) ↔
        ∀ u, Percent.IsRun t.source u →
          (∃ d, Percent.decode? u = some d ∧
            ∀ c ∈ d, CharClass.unreservedOrReserved.admits c = false) ∧
          Percent.InCapitals u) := by
  have hp := Percent.unreservedOrReserved_percent
  have hs := spelled_of_literals ht
  refine ⟨expand_literals ht hb o, ?_⟩
  rw [← Percent.isEncoded_iff hp]
  constructor
  · intro h u hu
    obtain ⟨bs, hbs⟩ := hu.2.1
    exact (Percent.isEncoded_run_iff hp hbs).mp (h.run hs hu)
  · intro h
    refine Percent.isEncoded_asciiForm _ hs fun u hu => ?_
    obtain ⟨bs, hbs⟩ := hu.2.1
    exact (Percent.isEncoded_run_iff hp hbs).mpr (h u hu)

/-- A run next to a character outside ASCII, and a run of an escaped slash. -/
theorem accented_encoded_once :
    let s : Text := lit "é%C3%A9/%20"
    let s' : Text := lit "é%C3%A9%2F"
    termsOf s = .ok [.literal (lit "%C3%A9%C3%A9/%20")] ∧
      (∀ u, Percent.IsRun s u → (∃ d, Percent.decode? u = some d ∧
        ∀ c ∈ d, CharClass.unreservedOrReserved.admits c = false) ∧ Percent.InCapitals u) ∧
      termsOf s' = .ok [.literal (lit "%C3%A9%C3%A9%2F")] ∧
      ¬ ∀ u, Percent.IsRun s' u → (∃ d, Percent.decode? u = some d ∧
        ∀ c ∈ d, CharClass.unreservedOrReserved.admits c = false) ∧ Percent.InCapitals u := by
  intro s s'
  have h : termsOf s = .ok [.literal (lit "%C3%A9%C3%A9/%20")] := by decide +kernel
  have h' : termsOf s' = .ok [.literal (lit "%C3%A9%C3%A9%2F")] := by decide +kernel
  obtain ⟨-, hs⟩ := encoded_once (t := ⟨s, _, h⟩) (by simp [Term.isLiteral]) (b := .datum .null)
    rfl {}
  obtain ⟨-, hs'⟩ := encoded_once (t := ⟨s', _, h'⟩) (by simp [Term.isLiteral])
    (b := .datum .null) rfl {}
  have hd : Percent.decode? s.asciiForm = some (lit "éé/ ") := by decide
  have he : Percent.encode false CharClass.unreservedOrReserved.admits (lit "éé/ ") =
      s.asciiForm := by decide
  have hd' : Percent.decode? s'.asciiForm = some (lit "éé/") := by decide
  have he' : Percent.encode false CharClass.unreservedOrReserved.admits (lit "éé/") ≠
      s'.asciiForm := by decide
  refine ⟨h, hs.mp ⟨_, hd, he⟩, h', fun hruns => ?_⟩
  obtain ⟨d, hdecode, hencode⟩ := hs'.mpr hruns
  obtain rfl := Option.some.inj (hd'.symm.trans hdecode)
  exact he' hencode

end Template

end UriTemplate

import UriTemplate.Proofs.NormalForm
import UriTemplate.Proofs.Reencoding
import UriTemplate.Proofs.Runs
import UriTemplate.Proofs.Separation

/-!
Names in what is expanded. The operators for path parameters and queries show a name with each unit,
encoded anew: the decoded name, but for a map that is not exploded the name as written. What is shown
decodes to the one or the other. It is the name as written where that has nothing to be changed: in
the first case its triplets are in capitals and encode no unreserved character, in the second there
are none.
-/

namespace UriTemplate

/-! ### Names that are written as they are encoded -/

namespace Percent

variable {allowed : CodePoint → Bool}

/-- Wherever triplets encode a character, they are in capitals, and the character is not allowed to
stand for itself. -/
def WellEscaped (allowed : CodePoint → Bool) (u : Text) : Prop :=
  ∀ (t : Text) (c : Char), t <:+: u → Grammar.Triplets t (String.utf8EncodeChar c) →
    InCapitals t ∧ allowed c = false

lemma WellEscaped.of_infix {t u : Text} (h : WellEscaped allowed u) (ht : t <:+: u) :
    WellEscaped allowed t :=
  fun s c hs => h s c (hs.trans ht)

lemma length_triplets {u : Text} {bs : List UInt8} (h : Grammar.Triplets u bs) :
    u.length = 3 * bs.length := by
  induction h with
  | nil => rfl
  | cons _ _ _ ih =>
    simp only [List.length_cons, ih]
    omega

/-- **Encoding** writes triplets in capitals, and only for what is not allowed. -/
theorem wellEscaped_encode (hp : allowed '%' = false)
    (hex : ∀ c, CharClass.hexDigit.admits c = true → allowed c = true) (d : Text) :
    WellEscaped allowed (encode false allowed d) := by
  rintro t c ⟨l, r, hu⟩ ht
  rw [List.append_assoc] at hu
  obtain ⟨t', hpercent⟩ := Production.exists_triplets ht
  have hne : t ≠ [] := by simp [hpercent]
  -- the character was one of the text, since no other octets begin where its octets do
  have hoctets : d.flatMap Utf8.encode = octets l ++ (Utf8.encode c ++ octets r) := by
    rw [← octets_encode hp, ← hu, octets_around ht hne, Utf8.encode_ofChar]
  obtain ⟨d₁, d₂, rfl, h₁, -⟩ := Utf8.exists_split hoctets
  have hspelled := spelled_encode hex false (d₁ ++ .ofChar c :: d₂)
  rw [← hu] at hspelled
  obtain ⟨-, hchar⟩ := encode_parts hp hex hu.symm (hspelled.before_triplets ht hne) h₁
  rw [encode_false_cons] at hchar
  have hallowed : allowed c = false := by
    by_contra hc
    rw [Bool.not_eq_false] at hc
    rw [encodeChar_eq, if_pos hc, hpercent] at hchar
    rw [(List.cons.inj hchar).1, hp] at hc
    cases hc
  rw [encodeChar_eq, hallowed] at hchar
  have hlength : (escape c).length = t.length := by
    rw [length_escape, length_triplets ht, Utf8.encode_ofChar]
  obtain ⟨rfl, -⟩ := List.append_inj hchar hlength
  exact ⟨inCapitals_escape c, hallowed⟩

/-- A spelled text is left alone where triplets are not kept if it has none, and only then. -/
theorem encode_false_of_spelled_iff (hp : allowed '%' = false) {s : Text}
    (h : Spelled allowed s) : encode false allowed s = s ↔ ¬ HasTriplet s := by
  constructor
  · rintro heq ⟨l, r, rfl, p, a, b, r, rfl, ht⟩
    obtain ⟨rfl, -⟩ := isTriplet_iff.mp ht
    have hpercent := encode_false_eq_self_iff.mp heq (.ofChar '%') (by simp)
    simp [hp] at hpercent
  · intro hn
    rw [← encode_true_of_not_hasTriplet hn, encode_of_spelled h]

end Percent

namespace Grammar

open Percent

lemma encode_of_varchar {u : Text} {c : CodePoint} (h : Varchar u c)
    (hu : WellEscaped CharClass.unreserved.admits u) :
    encode false CharClass.unreserved.admits [c] = u := by
  cases h with
  | plain hc => exact encode_of_forall (by simpa using CharClass.unreserved_of_varchar hc)
  | @encoded _ c ht =>
    obtain ⟨hcapitals, hc⟩ := hu u c (List.infix_refl u) ht
    calc encode false CharClass.unreserved.admits [.ofChar c] = escape c := by
          rw [encode_eq_flatMap_escape (by simpa using hc), List.flatMap_singleton]
      _ = (String.utf8EncodeChar c).flatMap triplet := by rw [escape, Utf8.encode_ofChar]
      _ = u := (eq_flatMap_triplet ht hcapitals).symm

lemma encode_of_dotted {u t : Text} (h : Dotted u t)
    (hu : WellEscaped CharClass.unreserved.admits u) :
    encode false CharClass.unreserved.admits t = u := by
  cases h with
  | plain h => exact encode_of_varchar h hu
  | @dot u c h =>
    have hdot : encode false CharClass.unreserved.admits [.ofChar '.'] = [.ofChar '.'] :=
      encode_of_forall (by decide)
    have hchar := encode_of_varchar h (hu.of_infix (List.suffix_cons _ u).isInfix)
    rw [← List.singleton_append, encode_append, hdot, hchar, List.singleton_append]

lemma encode_of_nameRest {u d : Text} (h : NameRest u d)
    (hu : WellEscaped CharClass.unreserved.admits u) :
    encode false CharClass.unreserved.admits d = u := by
  induction h with
  | nil => rfl
  | @cons u s t d h _ ih =>
    have hfront := encode_of_dotted h (hu.of_infix (List.prefix_append u s).isInfix)
    rw [encode_append, hfront, ih (hu.of_infix (List.suffix_append u s).isInfix)]

/-- **A decoded name is encoded to the name as written** exactly if that is well escaped. -/
theorem encode_decoded_iff {u d : Text} (h : Varname u d) :
    encode false CharClass.unreserved.admits d = u ↔
      WellEscaped CharClass.unreserved.admits u := by
  constructor
  · rintro rfl
    exact wellEscaped_encode CharClass.unreserved_percent
      (fun _ => CharClass.unreserved_of_hexDigit) d
  · intro hu
    obtain @⟨u, s, d, c, hc, hs⟩ := h
    have hfront := encode_of_varchar hc (hu.of_infix (List.prefix_append u s).isInfix)
    have hrest := encode_of_nameRest hs (hu.of_infix (List.suffix_append u s).isInfix)
    rw [← List.singleton_append, encode_append, hfront, hrest]

end Grammar

/-! ### Names of units -/

open Percent

/-- The operators that show names. -/
def Operator.named : List Operator := [.pathParam, .queryForm, .queryContinuation]

lemma Operator.joining_of_named : ∀ op ∈ named, op.style.joining ≠ .bare := by decide

/-- The name that a unit shows: what stands before its first equals sign, or all of it. -/
def shownName (u : Text) : Text := (u.cutAt '=').1

/-- A variable shows its decoded name for the value, a text or a list with members. A list is no
value for a variable that cuts. -/
def Varspec.ShowsDecoded (v : Varspec) : Value → Prop
  | .scalar _ => True
  | .list ts => ts ≠ [] ∧ v.modifier.cut? = none
  | _ => False

lemma shownName_join {op : Operator} (hop : op ∈ Operator.named) (entry : Bool)
    (name value : Text) :
    shownName (op.join entry (op.encodeName name) value) = op.encodeName name := by
  have hequals := equals_not_mem_encodeName op name
  rcases op.join_cases entry (op.encodeName name) value with ⟨hbare, -⟩ | ⟨-, -, -, h⟩ | h
  · exact absurd hbare (Operator.joining_of_named op hop)
  · rw [h, shownName, Text.cutAt_of_not_mem hequals]
  · rw [h, shownName, Operator.pair, Text.cutAt_append hequals]

/-- **Texts and lists** give units, all of which show the decoded name. -/
theorem Varspec.exists_units_decoded {op : Operator} (hop : op ∈ Operator.named) {v : Varspec}
    {x : Value} (h : v.ShowsDecoded x) : ∃ us, v.units op x = .ok us ∧ us ≠ [] ∧
      ∀ u ∈ us, shownName u = op.encodeName v.decoded := by
  rcases x with _ | t | ts | es
  · exact h.elim
  · refine ⟨_, units_scalar op v t, by simp, fun u hu => ?_⟩
    rw [List.mem_singleton.mp hu]
    exact shownName_join hop false _ _
  · obtain ⟨hne, hcut⟩ := h
    refine ⟨_, units_list hcut, ?_, fun u hu => ?_⟩
    · split_ifs <;> simp_all
    · split_ifs at hu with hexplode hempty
      · obtain ⟨t, -, rfl⟩ := List.mem_map.mp hu
        exact shownName_join hop false _ _
      · cases hu
      · rw [List.mem_singleton.mp hu]
        exact shownName_join hop false _ _
  · exact h.elim

/-- **A map that is not exploded** gives one unit, which shows the name as written. -/
theorem Varspec.exists_unit_written {op : Operator} (hop : op ∈ Operator.named) {v : Varspec}
    (hv : v.modifier = .whole) {es : List (Text × Text)} (hne : es ≠ []) :
    ∃ u, v.units op (.map es) = .ok [u] ∧ shownName u = op.encodeName v.name := by
  obtain ⟨n, d, m⟩ := v
  obtain rfl : m = .whole := hv
  refine ⟨op.join false (op.encodeName n) (commaJoined op (es.flatMap fun e => [e.1, e.2])), ?_,
    shownName_join hop false _ _⟩
  simp [units, hne]

/-- **Names that are shown**: whatever is compiled, each of its variables has the decoded name that
percent-decoding makes of its name. With an operator that shows names, all units for a text or a
list with members show a name that decodes to it, and show the name as written exactly if its
encoded characters are in capitals and none of them is unreserved. The one unit for a map that has
entries and is not exploded shows a name that decodes to the name as written, and shows that name
itself exactly if it has no triplet. -/
theorem names_shown {s : Text} {ts : List Term} (h : termsOf s = .ok ts) {o op : Operator}
    {vs : List Varspec} (ht : .expression o vs ∈ ts) {v : Varspec} (hv : v ∈ vs)
    (hop : op ∈ Operator.named) :
    decode? v.name = some v.decoded ∧
      (∀ x, v.ShowsDecoded x → ∃ us, v.units op x = .ok us ∧ us ≠ [] ∧ ∀ u ∈ us,
        decode? (shownName u) = some v.decoded ∧
          (shownName u = v.name ↔ WellEscaped CharClass.unreserved.admits v.name)) ∧
      ∀ es, es ≠ [] → v.modifier = .whole → ∃ u, v.units op (.map es) = .ok [u] ∧
        decode? (shownName u) = some v.name ∧ (shownName u = v.name ↔ ¬ HasTriplet v.name) := by
  obtain ⟨-, hnamed⟩ := (wellFormed_of_termsOf h).each _ ht
  have hname := Grammar.named_iff.mp (hnamed v hv)
  have hwrites := Grammar.writes_varname hname
  have hdecode : ∀ {t : Text}, (∀ c ∈ t, c.isSurrogate = false) →
      decode? (op.encodeName t) = some t :=
    fun ht => decode?_encode CharClass.unreserved_percent ht
  refine ⟨hwrites.decode?_eq, fun x hx => ?_, fun es hne hwhole => ?_⟩
  · obtain ⟨us, hus, hne, hshown⟩ := Varspec.exists_units_decoded hop hx
    refine ⟨us, hus, hne, fun u hu => ?_⟩
    rw [hshown u hu]
    exact ⟨hdecode hwrites.scalars, Grammar.encode_decoded_iff hname⟩
  · obtain ⟨u, hu, hshown⟩ := Varspec.exists_unit_written hop hwhole hne
    have hscalars : ∀ c ∈ v.name, c.isSurrogate = false :=
      fun c hc => CodePoint.isSurrogate_of_isAscii (hwrites.ascii c hc)
    have hspelled := Grammar.spelled_varname hname
    refine ⟨u, hu, ?_⟩
    rw [hshown]
    exact ⟨hdecode hscalars, encode_false_of_spelled_iff CharClass.unreserved_percent hspelled⟩

/-- A triplet with a small letter in it, and one of an unreserved character. -/
theorem names_shown_accented :
    let v : Varspec := ⟨lit "%c3%A9.%7E", lit "é.~", .whole⟩
    termsOf (lit "\x7b;%c3%A9.%7E\x7d") = .ok [.expression .pathParam [v]] ∧
      Operator.queryForm ∈ Operator.named ∧ decode? v.name = some v.decoded ∧
      (∃ us, v.units .queryForm (.list [[], lit "a"]) = .ok us ∧ us ≠ [] ∧ ∀ u ∈ us,
        decode? (shownName u) = some v.decoded ∧
          (shownName u = v.name ↔ WellEscaped CharClass.unreserved.admits v.name)) ∧
      ∃ u, v.units .queryForm (.map [(lit "a", [])]) = .ok [u] ∧
        decode? (shownName u) = some v.name ∧ (shownName u = v.name ↔ ¬ HasTriplet v.name) := by
  intro v
  have hterms : termsOf (lit "\x7b;%c3%A9.%7E\x7d") = .ok [.expression .pathParam [v]] := by
    decide +kernel
  have hop : Operator.queryForm ∈ Operator.named := by decide
  obtain ⟨hdecode, hdecoded, hwritten⟩ := names_shown hterms (List.mem_singleton_self _)
    (List.mem_singleton_self v) hop
  exact ⟨hterms, hop, hdecode, hdecoded (.list [[], lit "a"]) ⟨by simp, rfl⟩,
    hwritten [(lit "a", [])] (by simp) rfl⟩

end UriTemplate

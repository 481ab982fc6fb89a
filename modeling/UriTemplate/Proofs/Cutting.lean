import UriTemplate.Proofs.OnePass
import UriTemplate.Proofs.Runs
import UriTemplate.Proofs.Separation
import UriTemplate.Proofs.Splitting

/-!
Cuts. What is written for the first characters of a text is the front of what is written for all of
it, since characters are encoded one by one. Only where triplets are kept does a character depend on
the next ones, and then a cut must not go through a triplet, of which it would leave a percent sign
that has to be encoded.
-/

namespace UriTemplate

/-! ### Encoding the front of a text -/

namespace Percent

/-- A place in a text has a triplet around it. -/
def InsideTriplet (s : Text) (i : Nat) : Prop :=
  ∃ l p a b r, s = l ++ p :: a :: b :: r ∧ isTriplet p a b = true ∧
    l.length < i ∧ i < l.length + 3

variable {allowed : CodePoint → Bool}

lemma InsideTriplet.lt_length {s : Text} {i : Nat} (h : InsideTriplet s i) : i < s.length := by
  obtain ⟨l, p, a, b, r, rfl, -, -, hi⟩ := h
  simp only [List.length_append, List.length_cons]
  omega

lemma InsideTriplet.of_prefix {s t : Text} {i : Nat} (h : InsideTriplet s i) (hst : s <+: t) :
    InsideTriplet t i := by
  obtain ⟨l, p, a, b, r, rfl, ht, hi⟩ := h
  obtain ⟨w, rfl⟩ := hst
  exact ⟨l, p, a, b, r ++ w, by simp, ht, hi⟩

/-- What stands before does not matter to the place where two texts meet. -/
lemma InsideTriplet.append_left {s t : Text} (h : InsideTriplet (s ++ t) s.length) (u : Text) :
    InsideTriplet (u ++ s ++ t) (u ++ s).length := by
  obtain ⟨l, p, a, b, r, hst, ht, hi⟩ := h
  refine ⟨u ++ l, p, a, b, r, ?_, ht, ?_⟩
  · rw [List.append_assoc, hst, List.append_assoc]
  · rw [List.length_append, List.length_append]
    omega

/-- **Where triplets are kept**, two texts are encoded apart if no triplet goes from the one to the
other. -/
theorem encode_true_append {s t : Text} (h : ¬ InsideTriplet (s ++ t) s.length) :
    encode true allowed (s ++ t) = encode true allowed s ++ encode true allowed t := by
  induction s using scan_induction with
  | nil => rfl
  | triplet p a b s ht ih =>
    have hs : ¬ InsideTriplet (s ++ t) s.length := fun hi => h (hi.append_left [p, a, b])
    rw [List.cons_append, List.cons_append, List.cons_append, encode_of_triplet ht,
      encode_of_triplet ht, ih hs, List.cons_append, List.cons_append, List.cons_append]
  | char c s hc ih =>
    have hs : ¬ InsideTriplet (s ++ t) s.length := fun hi => h (hi.append_left [c])
    have hahead : ¬ TripletAhead (c :: (s ++ t)) := by
      rintro ⟨p, a, b, r, hpab, ht⟩
      -- a triplet that begins here and is not in the first text goes on into the second
      rcases s with _ | ⟨x, _ | ⟨y, s⟩⟩
      · exact h ⟨[], p, a, b, r, hpab, ht, by simp, by simp⟩
      · exact h ⟨[], p, a, b, r, hpab, ht, by simp, by simp⟩
      · cases hpab
        exact hc ⟨_, _, _, s, rfl, ht⟩
    rw [List.cons_append, encode_of_char hahead, encode_of_char hc, ih hs, List.append_assoc]

/-- **The front of a text** is encoded to a front of what a longer front is encoded to. -/
theorem encode_take_prefix {keeps : Bool} {k : Nat} {s t : Text} (hk : s.take k <+: t)
    (ht : t <+: s) (h : keeps = true → ¬ InsideTriplet s k) :
    encode keeps allowed (s.take k) <+: encode keeps allowed t := by
  obtain ⟨r, rfl⟩ := hk
  cases keeps with
  | false =>
    rw [encode_append]
    exact List.prefix_append _ _
  | true =>
    rw [encode_true_append]
    · exact List.prefix_append _ _
    · intro hi
      have hinside := hi.of_prefix ht
      have hlength := hinside.lt_length
      rw [List.length_take] at hinside hlength
      rw [Nat.min_eq_left (by omega)] at hinside
      exact h rfl hinside

end Percent

/-! ### Units of fronts -/

namespace Operator

lemma allowed_percent (op : Operator) : op.style.allowed.admits '%' = false := by
  cases op <;> decide

/-- What is before a value that is not empty does not depend on it. -/
lemma exists_front (op : Operator) (name : Text) :
    ∃ front, ∀ value, value ≠ [] → op.join false name value = front ++ value := by
  unfold join
  rcases op.style.joining with _ | _ | _
  · exact ⟨[], fun value _ => rfl⟩
  · exact ⟨name ++ [.ofChar '='], fun value _ => by simp [pair]⟩
  · refine ⟨name ++ [.ofChar '='], fun value hv => ?_⟩
    simp [pair, hv]

/-- The part of an expression of one variable that its value is written in: what follows the leader,
and the first equals sign where names are shown. -/
def valuePart (op : Operator) (t : Text) : Text :=
  let u : Text := t.drop op.style.leader.length
  if op.style.joining = .bare then u else (Text.cutAt '=' u).2

lemma valuePart_unit (op : Operator) (name value : Text) :
    op.valuePart (op.style.leader ++ Varspec.unit op name value) = op.encodeValue value := by
  have hequals := equals_not_mem_encodeName op name
  unfold valuePart Varspec.unit
  rw [List.drop_left]
  rcases hj : op.style.joining with _ | _ | _
  · rw [if_pos rfl, join, hj]
    rfl
  · rw [if_neg (by simp), join, hj]
    exact congrArg Prod.snd (Text.cutAt_append hequals _)
  · rw [if_neg (by simp), join, hj]
    dsimp only
    split_ifs with hempty
    · rw [Text.cutAt_of_not_mem hequals]
      simpa using hempty
    · exact congrArg Prod.snd (Text.cutAt_append hequals _)

end Operator

/-- **The unit of a front** is a front of the unit. What is empty has a unit of its own kind, but
that of a cut only if there was nothing to be cut. -/
theorem Varspec.unit_prefix {op : Operator} {name u w : Text} (hempty : u = [] → w = [])
    (h : op.encodeValue u <+: op.encodeValue w) : unit op name u <+: unit op name w := by
  by_cases hu : u = []
  · rw [hu, hempty hu]
  · obtain ⟨front, hfront⟩ := op.exists_front (op.encodeName name)
    have hu' : op.encodeValue u ≠ [] := fun he => hu (Percent.encode_eq_nil.mp he)
    have hw' : op.encodeValue w ≠ [] := by
      intro he
      rw [he, List.prefix_nil] at h
      exact hu' h
    rw [unit, unit, hfront _ hu', hfront _ hw']
    exact (List.prefix_append_right_inj front).mpr h

namespace Expansion

variable {lookup : Lookup} {o : Options} {op : Operator}

/-- An expression of one variable whose value is a text. -/
lemma result_scalar {n : Name} {t : Text} (h : lookup [] n = .ok (.scalar t)) (o : Options)
    (op : Operator) (d : Text) (m : Modifier) :
    (run (expression lookup o op [⟨n, d, m⟩])).result =
      .ok (op.style.leader ++ Varspec.unit op d (m.trim t)) := by
  have hunits : unitsFor o op ⟨n, d, m⟩ (.scalar t) = .ok [Varspec.unit op d (m.trim t)] := by
    rw [unitsFor_of_ne (by simp), Varspec.units_scalar]
  rw [result_expression, after_contribution_cons, h, Except.bind, hunits, contribution_nil,
    after_pure]
  simp [Except.bind, Except.map, Operator.assemble]

open Percent

/-- **Cuts.** An expression of one variable whose value is a text gives a text for any cut, and with
a cut it gives a front of what it gives with a longer one and of what it gives with none, unless
triplets are kept and the cut goes through one. A cut that is not shorter than the value changes
nothing. Where triplets are not kept and the value has no surrogates, what is written of the value
decodes to as much of it as the cut leaves. -/
theorem cut_expression {lookup : Lookup} {n : Name} {t : Text}
    (h : lookup [] n = .ok (.scalar t)) (o : Options) (op : Operator) (d : Text)
    {k m : CutLength} (hkm : k.val ≤ m.val) :
    ∃ a b c, (run (expression lookup o op [⟨n, d, .cut k⟩])).result = .ok a ∧
      (run (expression lookup o op [⟨n, d, .cut m⟩])).result = .ok b ∧
      (run (expression lookup o op [⟨n, d, .whole⟩])).result = .ok c ∧
      (op.style.keepsTriplets = false ∨ ¬ InsideTriplet t k.val → a <+: b ∧ a <+: c) ∧
      (t.length ≤ k.val → a = c) ∧
      (op.style.keepsTriplets = false → (∀ x ∈ t, x.isSurrogate = false) →
        decode? (op.valuePart a) = some (t.take (min k.val t.length))) := by
  refine ⟨_, _, _, result_scalar h o op d (.cut k), result_scalar h o op d (.cut m),
    result_scalar h o op d .whole, fun hk => ?_, fun hlength => ?_, fun hkeeps hscalars => ?_⟩
  · have hkeeps : op.style.keepsTriplets = true → ¬ InsideTriplet t k.val := by
      intro htrue
      exact hk.resolve_left (by simp [htrue])
    have hempty : t.take k.val = [] → t = [] := (Row.trim_eq_nil (.cut k) t).mp
    have hfront : ∀ w, t.take k.val <+: w → w <+: t →
        op.style.leader ++ Varspec.unit op d (t.take k.val) <+:
          op.style.leader ++ Varspec.unit op d w := by
      intro w hw hwt
      refine (List.prefix_append_right_inj _).mpr (Varspec.unit_prefix (fun hu => ?_) ?_)
      · rw [hempty hu, List.prefix_nil] at hwt
        exact hwt
      · exact encode_take_prefix hw hwt hkeeps
    exact ⟨hfront _ (List.take_prefix_take_left hkm) (List.take_prefix _ _),
      hfront _ (List.take_prefix _ _) (List.prefix_refl t)⟩
  · rw [Modifier.trim, List.take_of_length_le hlength]
    rfl
  · rw [Operator.valuePart_unit, Operator.encodeValue, hkeeps, ← List.take_eq_take_min]
    refine decode?_encode op.allowed_percent fun x hx => hscalars x (List.mem_of_mem_take hx)

/-- A cut before a triplet and a longer one that goes through it; and a name alone where there is
nothing to be cut. -/
theorem cut_expression_triplet :
    let t : Text := lit "é%41"
    let lookup : Lookup := fun _ n => .ok (.scalar (if n = lit "x" then t else []))
    let k : CutLength := ⟨1, by decide⟩
    let m : CutLength := ⟨2, by decide⟩
    lookup [] (lit "x") = .ok (.scalar t) ∧ k.val ≤ m.val ∧ ¬ InsideTriplet t k.val ∧
      (∃ a b c, a = lit "#%C3%A9" ∧ b = lit "#%C3%A9%25" ∧ c = lit "#%C3%A9%41" ∧
        (run (expression lookup {} .fragment [⟨lit "x", lit "x", .cut k⟩])).result = .ok a ∧
        (run (expression lookup {} .fragment [⟨lit "x", lit "x", .cut m⟩])).result = .ok b ∧
        (run (expression lookup {} .fragment [⟨lit "x", lit "x", .whole⟩])).result = .ok c ∧
        a <+: b ∧ a <+: c) ∧
      Operator.pathParam.style.keepsTriplets = false ∧ lookup [] (lit "y") = .ok (.scalar []) ∧
      ∃ a, a = lit ";y" ∧
        (run (expression lookup {} .pathParam [⟨lit "y", lit "y", .cut k⟩])).result = .ok a ∧
        decode? (Operator.pathParam.valuePart a) = some [] := by
  intro t lookup k m
  have hinside : ¬ InsideTriplet t k.val := by
    rintro ⟨_ | ⟨x, l⟩, p, a, b, r, ht, htriplet, hl, -⟩
    · have hfirst : p = .ofChar 'é' := (congrArg (List.headD · p) ht).symm
      rw [(isTriplet_iff.mp htriplet).1] at hfirst
      exact absurd hfirst (by decide)
    · simp [k] at hl
  have hx : lookup [] (lit "x") = .ok (.scalar t) := rfl
  have hy : lookup [] (lit "y") = .ok (.scalar []) := rfl
  have hkm : k.val ≤ m.val := by decide
  refine ⟨hx, hkm, hinside, ?_, rfl, hy, ?_⟩
  · obtain ⟨a, b, c, ha, hb, hc, hfront, -⟩ := cut_expression hx {} .fragment (lit "x") hkm
    refine ⟨a, b, c, ?_, ?_, ?_, ha, hb, hc, hfront (.inr hinside)⟩
    · exact (Except.ok.inj ha).symm
    · exact (Except.ok.inj hb).symm
    · exact (Except.ok.inj hc).symm
  · obtain ⟨a, -, -, ha, -, -, -, -, hdecode⟩ := cut_expression hy {} .pathParam (lit "y") hkm
    exact ⟨a, (Except.ok.inj ha).symm, ha, hdecode rfl (by simp)⟩

end Expansion

end UriTemplate

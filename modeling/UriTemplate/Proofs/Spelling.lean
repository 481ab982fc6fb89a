import UriTemplate.Proofs.Grammar

/-!
Terms as templates spell them. In the grammar an expression is written in one way only, and so is
each of its parts: a number without leading zeros, a modifier, a variable, a list of variables. What
is written is what is printed here for what it gives.
-/

namespace UriTemplate

def Modifier.printed : Modifier → Text
  | whole => []
  | cut n => .ofChar ':' :: Text.ofInt n.val
  | explode => ['*']

def Varspec.printed (v : Varspec) : Text := v.name ++ v.modifier.printed

/-- What selects an operator: nothing for the simple one, the first trigger for any other. -/
def Operator.printed (op : Operator) : Text := (op.style.triggers.take 1).map .ofChar

/-- A term as a template spells it. A literal is spelled as it is. -/
def Term.printed : Term → Text
  | literal t => t
  | expression op vs => .ofChar '{' :: (op.printed ++
      ([.ofChar ','].intercalate (vs.map Varspec.printed) ++ [.ofChar '}']))

/-- Terms in a row. -/
def Term.printAll (ts : List Term) : Text := ts.flatMap Term.printed

/-! ### Numbers -/

lemma CharClass.digit_iff {c : CodePoint} :
    digit.admits c = true ↔ 0x30 ≤ c.val ∧ c.val ≤ 0x39 := by
  simp [admits, holds, isDigit, between]

namespace Text

lemma ofInt_natCast (n : Nat) : Text.ofInt n = (Nat.toDigits 10 n).map CodePoint.ofChar := by
  have h : toString (n : Int) = n.repr := rfl
  rw [Text.ofInt, lit, h, Nat.toList_repr]

lemma ofInt_digit {c : CodePoint} (h : CharClass.digit.admits c = true) :
    Text.ofInt ((c.val - 0x30 : Nat) : Int) = [c] := by
  rw [CharClass.digit_iff] at h
  have hlt : c.val - 0x30 < 10 := by omega
  have hc : CodePoint.ofChar (c.val - 0x30).digitChar = c := by
    apply CodePoint.ext
    change (c.val - 0x30).digitChar.toNat = c.val
    rw [Nat.toNat_digitChar_of_lt_ten hlt]
    omega
  rw [ofInt_natCast, Nat.toDigits_of_lt_base hlt, List.map_singleton, hc]

/-- Digits after those of a number that is not zero. -/
lemma ofInt_append {n : Nat} (hn : 0 < n) {ds : Text}
    (hds : ∀ c ∈ ds, CharClass.digit.admits c = true) :
    Text.ofInt n ++ ds = Text.ofInt (ds.foldl (fun n c => 10 * n + (c.val - 0x30)) n : Nat) := by
  induction ds generalizing n with
  | nil => simp
  | cons c ds ih =>
    have hc := hds c (by simp)
    have hlt : c.val - 0x30 < 10 := by
      rw [CharClass.digit_iff] at hc
      omega
    have hstep : Text.ofInt n ++ [c] = Text.ofInt (10 * n + (c.val - 0x30) : Nat) := by
      rw [← ofInt_digit hc, ofInt_natCast, ofInt_natCast, ofInt_natCast, ← List.map_append,
        Nat.toDigits_append_toDigits (by decide) hn hlt]
    calc Text.ofInt n ++ c :: ds = (Text.ofInt n ++ [c]) ++ ds := by simp
      _ = Text.ofInt (10 * n + (c.val - 0x30) : Nat) ++ ds := by rw [hstep]
      _ = _ := ih (by omega) fun d hd => hds d (List.mem_cons_of_mem _ hd)

lemma intercalate_cons (sep : CodePoint) (t : Text) (ts : List Text) :
    [sep].intercalate (t :: ts) = t ++ ts.flatMap (sep :: ·) := by
  induction ts generalizing t with
  | nil => simp
  | cons u ts ih => rw [List.intercalate_cons_cons, ih]; simp

end Text

namespace Grammar

lemma eq_ofInt_of_length {u : Text} {n : CutLength} (h : Length u n) :
    u = Text.ofInt (n.val : Nat) := by
  obtain @⟨d, ds, n, hd, hds, -, hn⟩ := h
  have hdigit : CharClass.digit.admits d = true := CharClass.digit_iff.mpr (by omega)
  have happend := Text.ofInt_append (n := d.val - 0x30) (by omega) hds
  rw [Text.ofInt_digit hdigit] at happend
  simpa [hn, decimal] using happend

/-- Every number with so many digits or fewer has digits, of which the first is not zero. -/
lemma exists_digits (count : Nat) {n : Nat} (h : 1 ≤ n) (hn : n < 10 ^ (count + 1)) :
    ∃ (d : CodePoint) (ds : Text), (0x31 ≤ d.val ∧ d.val ≤ 0x39) ∧
      (∀ c ∈ ds, CharClass.digit.admits c = true) ∧ ds.length ≤ count ∧ n = decimal (d :: ds) := by
  induction count generalizing n with
  | zero =>
    refine ⟨⟨0x30 + n, by omega⟩, [], ⟨?_, ?_⟩, by simp, by simp, by simp [decimal]⟩ <;>
      dsimp only <;> omega
  | succ count ih =>
    by_cases hlt : n < 10 ^ (count + 1)
    · obtain ⟨d, ds, hd, hds, hl, hn⟩ := ih h hlt
      exact ⟨d, ds, hd, hds, by omega, hn⟩
    · have hpos : 10 ≤ n := by
        have : 1 ≤ 10 ^ count := Nat.one_le_pow _ _ (by decide)
        rw [Nat.pow_succ] at hlt
        omega
      obtain ⟨d, ds, hd, hds, hl, hq⟩ := ih (n := n / 10) (by omega) (by
        rw [Nat.pow_succ] at hn
        omega)
      refine ⟨d, ds ++ [⟨0x30 + n % 10, by omega⟩], hd, ?_, by simp [hl], ?_⟩
      · intro c hc
        rcases List.mem_append.mp hc with hc | hc
        · exact hds c hc
        · rw [List.mem_singleton.mp hc]
          exact CharClass.digit_iff.mpr (by dsimp only; omega)
      · rw [decimal, ← List.cons_append, List.foldl_append, ← decimal, ← hq]
        simp
        omega

/-- **A number** is written in its decimal digits. -/
theorem length_iff {u : Text} {n : CutLength} : Length u n ↔ u = Text.ofInt (n.val : Nat) := by
  refine ⟨eq_ofInt_of_length, ?_⟩
  rintro rfl
  obtain ⟨h1, h2⟩ := n.property
  obtain ⟨d, ds, hd, hds, hl, hn⟩ := exists_digits 3 h1 (by omega)
  have hlength : Length (d :: ds) n := .mk hd hds hl hn
  rwa [eq_ofInt_of_length hlength] at hlength

/-! ### Expressions -/

lemma suffix_iff {s : Text} {m : Modifier} : Suffix s m ↔ s = m.printed := by
  constructor
  · intro h
    cases h with
    | whole => rfl
    | cut h => rw [length_iff.mp h, Modifier.printed]
    | explode => rfl
  · rintro rfl
    rcases m with _ | n | _
    · exact .whole
    · exact .cut (length_iff.mpr rfl)
    · exact .explode

lemma variable_iff {u : Text} {v : Varspec} :
    Variable u v ↔ u = v.printed ∧ Varname v.name v.decoded := by
  constructor
  · rintro ⟨hn, hm⟩
    exact ⟨by rw [Varspec.printed, suffix_iff.mp hm], hn⟩
  · rintro ⟨rfl, hn⟩
    exact .mk hn (suffix_iff.mpr rfl)

lemma moreVariables_iff {u : Text} {vs : List Varspec} : MoreVariables u vs ↔
    u = vs.flatMap (fun v => .ofChar ',' :: v.printed) ∧
      ∀ v ∈ vs, Varname v.name v.decoded := by
  constructor
  · intro h
    induction h with
    | nil => exact ⟨rfl, by simp⟩
    | cons hv _ ih =>
      obtain ⟨rfl, hn⟩ := variable_iff.mp hv
      exact ⟨by rw [ih.1]; rfl, by simpa [hn] using ih.2⟩
  · rintro ⟨rfl, hn⟩
    induction vs with
    | nil => exact .nil
    | cons v vs ih =>
      have hv := variable_iff.mpr ⟨rfl, hn v (by simp)⟩
      exact .cons hv (ih fun w hw => hn w (List.mem_cons_of_mem _ hw))

lemma variableList_iff {u : Text} {vs : List Varspec} : VariableList u vs ↔
    u = [.ofChar ','].intercalate (vs.map Varspec.printed) ∧
      ∀ v ∈ vs, Varname v.name v.decoded := by
  constructor
  · intro h
    cases h with
    | empty => exact ⟨rfl, by simp⟩
    | list hv hs =>
      obtain ⟨rfl, hn⟩ := variable_iff.mp hv
      obtain ⟨rfl, hns⟩ := moreVariables_iff.mp hs
      refine ⟨?_, by simpa [hn] using hns⟩
      rw [List.map_cons, Text.intercalate_cons, List.flatMap_map]
  · rintro ⟨rfl, hn⟩
    rcases vs with _ | ⟨v, vs⟩
    · exact .empty
    · rw [List.map_cons, Text.intercalate_cons, List.flatMap_map]
      have hv := variable_iff.mpr ⟨rfl, hn v (by simp)⟩
      exact .list hv (moreVariables_iff.mpr ⟨rfl, fun w hw => hn w (List.mem_cons_of_mem _ hw)⟩)

lemma opener_iff {o : Text} {op : Operator} (h : op ≠ .future) : Opener o op ↔ o = op.printed := by
  constructor
  · intro ho
    cases ho <;> first
      | rfl
      | exact absurd rfl h
  · rintro rfl
    cases op <;> constructor

/-- **An expression** whose operator is not set aside is written as it is printed. -/
theorem expression_iff {u : Text} {op : Operator} {vs : List Varspec} (h : op ≠ .future) :
    Expression u op vs ↔
      u = (Term.expression op vs).printed ∧ ∀ v ∈ vs, Varname v.name v.decoded := by
  constructor
  · rintro ⟨ho, hu⟩
    obtain ⟨rfl, hn⟩ := variableList_iff.mp hu
    exact ⟨by rw [(opener_iff h).mp ho]; rfl, hn⟩
  · rintro ⟨rfl, hn⟩
    exact .mk ((opener_iff h).mpr rfl) (variableList_iff.mpr ⟨rfl, hn⟩)

end Grammar

end UriTemplate

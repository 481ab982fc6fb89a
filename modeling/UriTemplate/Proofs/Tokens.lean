import UriTemplate.Proofs.Boundaries
import UriTemplate.Proofs.Printing
import UriTemplate.Proofs.Rejection

/-!
Every name can be written. A character of names stands for itself, and any other, dots included, is
written as its triplets. Read as a name, what is written gives the text back and no other one, since
it has the octets of no other. The octets of a surrogate are those of no character and cannot be
made so by what stands next to them: a text with a surrogate is written as what is no name, and an
expression with nothing else is rejected at its brace.
-/

namespace UriTemplate

open Percent

lemma CharClass.varchar_of_hexDigit {c : CodePoint} (h : hexDigit.admits c = true) :
    varchar.admits c = true := by
  simp [admits, holds, isHexDigit, isAlpha, isDigit, between] at h ⊢
  omega

namespace Text

/-- The token of a text, which writes it as a name. -/
def token (d : Text) : Text := encode false CharClass.varchar.admits d

/-- The token in braces, after what opens an expression. -/
def tokenSource (o d : Text) : Text := .ofChar '{' :: (o ++ (d.token ++ [.ofChar '}']))

lemma spelled_token (d : Text) : Spelled CharClass.varchar.admits d.token :=
  spelled_encode (fun _ => CharClass.varchar_of_hexDigit) false d

lemma octets_token (d : Text) : octets d.token = d.flatMap Utf8.encode :=
  octets_encode (by decide) d

lemma token_eq_nil {d : Text} : d.token = [] ↔ d = [] := encode_eq_nil

end Text

namespace Grammar

/-! ### What is written is a name -/

lemma triplets_flatMap (bs : List UInt8) : Triplets (bs.flatMap triplet) bs := by
  induction bs with
  | nil => exact .nil
  | cons b bs ih =>
    have hb := b.toNat_lt
    have hhigh := hexDigit_hexUpper (b.toNat / 16) (by omega)
    have hlow := hexDigit_hexUpper (b.toNat % 16) (by omega)
    have hcons := Triplets.cons hhigh hlow ih
    rwa [octet_hexUpper] at hcons

lemma varchar_encodeChar {c : CodePoint} (h : c.isSurrogate = false) :
    Varchar (encodeChar CharClass.varchar.admits c) c := by
  rw [encodeChar_eq]
  split_ifs with hc
  · exact .plain hc
  · obtain ⟨e, rfl⟩ := Utf8.exists_char h
    have hescape := triplets_flatMap (Utf8.encode (.ofChar e))
    rw [Utf8.encode_ofChar] at hescape
    rw [escape, Utf8.encode_ofChar]
    exact .encoded hescape

lemma nameRest_token {d : Text} (h : ∀ c ∈ d, c.isSurrogate = false) : NameRest d.token d := by
  induction d with
  | nil => exact .nil
  | cons c d ih =>
    obtain ⟨hc, hd⟩ := List.forall_mem_cons.mp h
    rw [Text.token, encode_false_cons]
    exact .cons (.plain (varchar_encodeChar hc)) (ih hd)

/-- **What writes a text** is a name exactly if the text is not empty and has no surrogate, and it
is the name of no other text. -/
theorem varname_token_iff {d e : Text} :
    Varname d.token e ↔ e = d ∧ d ≠ [] ∧ ∀ c ∈ d, c.isSurrogate = false := by
  constructor
  · intro h
    have hwrites := writes_varname h
    have hoctets : e.flatMap Utf8.encode = d.flatMap Utf8.encode := by
      rw [← hwrites.octets_eq, Text.octets_token]
    obtain rfl := Utf8.flatMap_encode_injective hoctets
    refine ⟨rfl, ?_, hwrites.scalars⟩
    generalize hu : e.token = u at h
    cases h
    simp
  · rintro ⟨rfl, hne, hs⟩
    rcases e with _ | ⟨c, d⟩
    · exact absurd rfl hne
    · obtain ⟨hc, hd⟩ := List.forall_mem_cons.mp hs
      rw [Text.token, encode_false_cons]
      exact .mk (varchar_encodeChar hc) (nameRest_token hd)

/-! ### What else may be read -/

/-- Variables without commas and modifiers are a single name. -/
lemma exists_name {u : Text} {vs : List Varspec} (h : VariableList u vs) (hne : u ≠ [])
    (hu : ∀ c ∈ lit ",:*", c ∉ u) : ∃ d, Varname u d := by
  cases h with
  | empty => exact absurd rfl hne
  | list hv hs =>
    cases hs with
    | cons => exact absurd (by simp) (hu (.ofChar ',') (by decide))
    | nil =>
      obtain ⟨hn, hm⟩ := hv
      cases hm with
      | whole => exact ⟨_, by simpa using hn⟩
      | cut => exact absurd (by simp) (hu (.ofChar ':') (by decide))
      | explode => exact absurd (by simp) (hu (.ofChar '*') (by decide))

/-- What stands after two openers is the same if it is no opener itself. -/
lemma opener_append_inj {o o' r r' : Text} {op op' : Operator} {c c' : CodePoint}
    (ho : Opener o op) (ho' : Opener o' op') (hc : Operator.ofTrigger? c = none)
    (hc' : Operator.ofTrigger? c' = none) (h : o ++ c :: r = o' ++ c' :: r') :
    c :: r = c' :: r' := by
  have htrigger := Production.trigger_complete ho hc 0 r
  rw [h, Production.trigger_complete ho' hc'] at htrigger
  simp only [Prod.mk.injEq, Cursor.mk.injEq] at htrigger
  exact htrigger.2.2.symm

lemma exists_cons_brace {u : Text} (h : Spelled CharClass.varchar.admits u) :
    ∃ c r, u ++ [.ofChar '}'] = c :: r ∧ Operator.ofTrigger? c = none := by
  rcases u with _ | ⟨c, u⟩
  · exact ⟨_, [], rfl, rfl⟩
  · have hc := h.1.imp id And.left
    exact ⟨c, _, rfl, Production.ofTrigger?_eq_none (hc.imp id .inl)⟩

/-- An expression at the front of one with what writes a text can only have its name. -/
lemma varname_of_expression {o d u t : Text} {op op' : Operator} {vs : List Varspec}
    (ho : Opener o op) (hd : d ≠ []) (hu : Expression u op' vs) (h : Text.tokenSource o d = u ++ t) :
    ∃ e, Varname d.token e := by
  have hnot : ∀ c, CharClass.varchar.admits c = false → c ≠ '%' → c ∉ d.token :=
    fun c hc hp => d.spelled_token.not_mem hc hp
  obtain @⟨o', l, op', vs, ho', hl⟩ := hu
  simp only [Text.tokenSource, List.cons_append, List.cons.injEq, List.append_assoc, true_and,
    List.nil_append] at h
  obtain ⟨c, r, hr, hc⟩ := exists_cons_brace d.spelled_token
  obtain ⟨c', r', hr', hc'⟩ := Production.exists_variableList hl t
  rw [hr, hr'] at h
  have hbrace : d.token ++ .ofChar '}' :: [] = l ++ .ofChar '}' :: t := by
    rw [hr, hr', opener_append_inj ho ho' hc hc' h]
  have hclose := hnot (.ofChar '}') (by decide) (by decide)
  obtain ⟨rfl, -⟩ := (List.append_cons_inj_of_notMem hclose (by simp)).mp hbrace
  refine exists_name hl (mt Text.token_eq_nil.mp hd) fun c hc => ?_
  have hmark : ∀ c ∈ lit ",:*", CharClass.varchar.admits c = false ∧ c ≠ '%' := by decide
  exact hnot c (hmark c hc).1 (hmark c hc).2

/-- **No item** stands at the front where a surrogate would be written. -/
theorem stuck_tokenSource {o d : Text} {op : Operator} (ho : Opener o op)
    (hd : ∃ c ∈ d, c.isSurrogate = true) : Stuck (Text.tokenSource o d) := by
  intro u x t hu h
  obtain ⟨c, hc, hsurrogate⟩ := hd
  cases hu with
  | literal hu => exact Production.literal_ne_brace hu t _ h.symm
  | expression hu =>
    obtain ⟨e, he⟩ := varname_of_expression ho (List.ne_nil_of_mem hc) hu h
    obtain ⟨-, -, hscalars⟩ := varname_token_iff.mp he
    simp [hscalars c hc] at hsurrogate

end Grammar

namespace Template

/-- **Every name can be written**: for a text that is not empty and has no surrogate, the source with
its token in braces, after any opener of an operator that is not set aside, compiles to a single
expression with this operator and a single variable, whose name is the token, whose decoded name is
the text and which has no modifier. For a text with a surrogate the source is rejected at its first
position. -/
theorem compile_token {o : Text} {op : Operator} (ho : Grammar.Opener o op) (d : Text) :
    (op ≠ .future → d ≠ [] → (∀ c ∈ d, c.isSurrogate = false) →
      ∃ t, compile (Text.tokenSource o d) = .ok t ∧
        t.terms = [.expression op [⟨d.token, d, .whole⟩]]) ∧
      ((∃ c ∈ d, c.isSurrogate = true) → compile (Text.tokenSource o d) =
        .error (.parse (Text.tokenSource o d) 0 Reason.unexpectedCharacter.text)) := by
  constructor
  · intro hop hne hscalars
    have hname := Grammar.varname_token_iff.mpr ⟨rfl, hne, hscalars⟩
    have hsource := Grammar.source_of_name ho hname
    have hterms := termsOf_ok hsource (by simpa using Term.isFuture_expression.mpr hop)
    exact ⟨_, compile_of_termsOf hterms, rfl⟩
  · intro hd
    have hstuck := Grammar.stuck_tokenSource ho hd
    exact compile_of_error (termsOf_stuck (u := []) .nil hstuck (by simp [Text.tokenSource]))

/-- A name with a dot and a character outside ASCII, and one with both halves of a surrogate pair. -/
theorem compile_token_query : Grammar.Opener ['?'] .queryForm ∧
    (∃ t, compile (lit "\x7b?q%2E%C3%A9\x7d") = .ok t ∧
      t.terms = [.expression .queryForm [⟨lit "q%2E%C3%A9", lit "q.é", .whole⟩]]) ∧
    compile (lit "\x7b?q%ED%A0%BD%ED%B8%80\x7d") =
      .error (.parse (lit "\x7b?q%ED%A0%BD%ED%B8%80\x7d") 0 Reason.unexpectedCharacter.text) := by
  have ho : Grammar.Opener ['?'] .queryForm := .queryForm
  have hname : Text.token (lit "q.é") = lit "q%2E%C3%A9" := by decide
  have hsource : Text.tokenSource ['?'] (lit "q.é") = lit "\x7b?q%2E%C3%A9\x7d" := by decide
  have hpair : Text.tokenSource ['?'] [.ofChar 'q', ⟨0xD83D, by decide⟩, ⟨0xDE00, by decide⟩] =
      lit "\x7b?q%ED%A0%BD%ED%B8%80\x7d" := by decide
  obtain ⟨t, ht, hterms⟩ := (compile_token ho (lit "q.é")).1 (by decide) (by decide) (by decide)
  rw [hsource] at ht
  rw [hname] at hterms
  refine ⟨ho, ⟨t, ht, hterms⟩, ?_⟩
  rw [← hpair]
  exact (compile_token ho _).2 ⟨⟨0xD83D, by decide⟩, by simp, by decide⟩

end Template

end UriTemplate

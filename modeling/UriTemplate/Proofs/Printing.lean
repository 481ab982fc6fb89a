import UriTemplate.Proofs.Concatenation
import UriTemplate.Proofs.NormalForm

/-!
Printing against compiling. What a source compiles to is printed as the source, except that
characters outside ASCII have been escaped; and what is printed for well-formed terms compiles to
these terms. So well-formed terms are all that compiling gives, and nothing of a source is lost.
-/

namespace UriTemplate

/-- A text in which each character outside ASCII is written as the triplets of its octets. -/
def Text.asciiForm (s : Text) : Text :=
  s.flatMap fun c => if c.isAscii then [c] else Percent.escape c

namespace Text

lemma asciiForm_append (s t : Text) : asciiForm (s ++ t) = asciiForm s ++ asciiForm t :=
  List.flatMap_append

lemma asciiForm_of_isAscii {s : Text} (h : ∀ c ∈ s, c.isAscii = true) : asciiForm s = s := by
  induction s with
  | nil => rfl
  | cons c s ih =>
    have hc := h c (by simp)
    have hs := ih fun d hd => h d (List.mem_cons_of_mem _ hd)
    rw [asciiForm] at hs ⊢
    rw [List.flatMap_cons, if_pos hc, hs, List.singleton_append]

end Text

/-! ### What stands in braces -/

namespace CharClass

lemma literal_of_digit {c : CodePoint} (h : 0x30 ≤ c.val ∧ c.val ≤ 0x39) :
    literal.admits c = true := by
  simp [admits, holds, inRanges, literalRanges, between]
  omega

end CharClass

/-- What is escaped in a literal is outside ASCII, and no surrogate is. -/
lemma CharClass.plain_of_escaped {c : CodePoint}
    (h : ucschar.admits c = true ∨ iprivate.admits c = true) :
    c.isAscii = false ∧ c.isSurrogate = false := by
  rw [Utf8.isSurrogate_eq_false]
  simp [admits, holds, inRanges, ucscharRanges, iprivateRanges, between, CodePoint.isAscii] at h ⊢
  omega

lemma Percent.Spelled.isAscii {s : Text} (h : Spelled CharClass.literal.admits s) :
    ∀ c ∈ s, c.isAscii = true := by
  induction s with
  | nil => simp
  | cons c s ih =>
    refine List.forall_mem_cons.mpr ⟨?_, ih h.2⟩
    rcases h.1 with hc | ⟨rfl, -⟩
    · exact CharClass.isAscii_of_literal hc
    · rfl

namespace Grammar

lemma spelled_suffix {u : Text} {m : Modifier} (h : Suffix u m) :
    Percent.Spelled CharClass.literal.admits u := by
  cases h with
  | whole => trivial
  | cut h =>
    obtain ⟨hd, hds, -, -⟩ := h
    refine ⟨.inl rfl, .inl (CharClass.literal_of_digit (by omega)), ?_⟩
    exact Percent.spelled_of_forall fun c hc =>
      CharClass.literal_of_digit (CharClass.digit_iff.mp (hds c hc))
  | explode => exact Percent.spelled_singleton rfl

lemma spelled_variable {u : Text} {v : Varspec} (h : Variable u v) :
    Percent.Spelled CharClass.literal.admits u := by
  obtain ⟨hn, hm⟩ := h
  have hname := (spelled_varname hn).mono fun c => CharClass.literal_of_unreserved
  exact hname.append (spelled_suffix hm)

/-- **Variables**, with their modifiers and commas, are written as a literal is. -/
theorem spelled_variableList {u : Text} {vs : List Varspec} (h : VariableList u vs) :
    Percent.Spelled CharClass.literal.admits u := by
  cases h with
  | empty => trivial
  | list hv hs =>
    refine (spelled_variable hv).append ?_
    clear hv
    induction hs with
    | nil => trivial
    | cons hv _ ih => exact ⟨.inl rfl, (spelled_variable hv).append ih⟩

/-- **An expression** is in ASCII. -/
theorem ascii_expression {u : Text} {op : Operator} {vs : List Varspec}
    (h : Expression u op vs) : ∀ c ∈ u, c.isAscii = true := by
  obtain @⟨o, u, op, vs, ho, hu⟩ := h
  have hopen : ∀ c ∈ o, c.isAscii = true := by cases ho <;> decide
  have hleft : CodePoint.isAscii '{' = true := rfl
  have hright : CodePoint.isAscii '}' = true := rfl
  simpa [hleft, hright, or_imp, forall_and] using ⟨hopen, (spelled_variableList hu).isAscii⟩

/-! ### Printing what was compiled -/

lemma printed_literal {u t : Text} (h : Literal u t) : t = u.asciiForm := by
  cases h with
  | verbatim hc =>
    have hascii := CharClass.isAscii_of_literal hc
    rw [Text.asciiForm_of_isAscii (by simpa using hascii)]
  | escaped hc => simp [Text.asciiForm, (CharClass.plain_of_escaped hc).1]
  | triplet ha hb =>
    rw [Text.asciiForm_of_isAscii]
    have hp : CodePoint.isAscii '%' = true := rfl
    simpa [hp] using ⟨CharClass.isAscii_of_hexDigit ha, CharClass.isAscii_of_hexDigit hb⟩

/-- **One item** is printed as it was written, in ASCII. -/
theorem printed_item {u : Text} {x : Term} (h : Item u x) (hf : x.isFuture = false) :
    x.printed = u.asciiForm := by
  cases h with
  | literal h => exact printed_literal h
  | @expression op vs h =>
    have hop := Term.isFuture_expression.mp hf
    rw [Text.asciiForm_of_isAscii (ascii_expression h), ((expression_iff hop).mp h).1]

end Grammar

namespace Term

lemma printAll_before (x : Term) (ts : List Term) :
    printAll (x.before ts) = x.printed ++ printAll ts := by
  rcases x with t | ⟨op, vs⟩
  · rcases ts with _ | ⟨t' | ⟨op', vs'⟩, ts⟩
    · rfl
    · simp [printAll, before, printed]
    · rfl
  · rfl

end Term

/-- **All items** are. -/
theorem Grammar.printAll_fused {s : Text} {xs : List Term} (h : Source s xs)
    (hf : ∀ x ∈ xs, x.isFuture = false) : Term.printAll (Term.fused xs) = s.asciiForm := by
  induction h with
  | nil => rfl
  | @cons u s x xs hx _ ih =>
    have hs := ih fun y hy => hf y (List.mem_cons_of_mem _ hy)
    calc Term.printAll (Term.fused (x :: xs)) = Term.printAll (x.before (Term.fused xs)) := rfl
      _ = x.printed ++ Term.printAll (Term.fused xs) := Term.printAll_before x _
      _ = u.asciiForm ++ s.asciiForm := by rw [hs, printed_item hx (hf x (by simp))]
      _ = (u ++ s).asciiForm := (Text.asciiForm_append u s).symm

/-! ### Compiling what is printed -/

namespace Grammar

/-- A well-formed term is printed as a source of it. -/
lemma exists_source_printed {x : Term} (h : x.IsNormal) : ∃ xs, Source x.printed xs ∧
    (∀ y ∈ xs, y.isFuture = false) ∧ Term.fused xs = [x] := by
  rcases x with t | ⟨op, vs⟩
  · obtain ⟨xs, hs, hf, hl⟩ := verbatim_of_spelled t h.2
    refine ⟨xs, hs, hf, ?_⟩
    rw [hl, if_neg (by simpa using h.1)]
  · have hn : ∀ v ∈ vs, Varname v.name v.decoded :=
      fun v hv => named_iff.mp (h.2 v hv)
    have hitem : Item (Term.expression op vs).printed (.expression op vs) :=
      .expression ((expression_iff h.1).mpr ⟨rfl, hn⟩)
    refine ⟨[.expression op vs], source_singleton hitem, ?_, rfl⟩
    simpa using Term.isFuture_expression.mpr h.1

/-- **Well-formed terms** are printed as a source of them. -/
theorem exists_source_printAll {ts : List Term} (h : Term.WellFormed ts) :
    ∃ xs, Source (Term.printAll ts) xs ∧ (∀ x ∈ xs, x.isFuture = false) ∧
      Term.fused xs = ts := by
  induction ts with
  | nil => exact ⟨[], .nil, by simp, rfl⟩
  | cons x ts ih =>
    obtain ⟨hx, hts, hhead⟩ := Term.WellFormed.cons_iff.mp h
    obtain ⟨xs, hxs, hxf, hfx⟩ := exists_source_printed hx
    obtain ⟨ys, hys, hyf, hfy⟩ := ih hts
    refine ⟨xs ++ ys, source_append hxs hys, ?_, ?_⟩
    · simpa [or_imp, forall_and] using ⟨hxf, hyf⟩
    · -- a literal stays apart, since no literal comes next
      rw [Term.fused_append, hfx, hfy]
      change x.before ts = x :: ts
      rcases x with t | ⟨op, vs⟩
      · rcases ts with _ | ⟨t' | ⟨op, vs⟩, ts⟩
        · rfl
        · simp [Term.isLiteral] at hhead
        · rfl
      · rfl

end Grammar

/-- **What is printed** for well-formed terms compiles to them. -/
theorem termsOf_printAll {ts : List Term} (h : Term.WellFormed ts) :
    termsOf (Term.printAll ts) = .ok ts := by
  obtain ⟨xs, hs, hf, rfl⟩ := Grammar.exists_source_printAll h
  exact termsOf_ok hs hf

/-- **Printing and compiling are inverse**: compiled terms are well-formed, they are printed as
their source with all of it in ASCII, and this compiles to the same terms; and whatever terms are
well-formed, what is printed for them compiles to them. -/
theorem printAll_inverse :
    (∀ s ts, termsOf s = .ok ts → Term.printAll ts = s.asciiForm ∧
      termsOf (Term.printAll ts) = .ok ts ∧ Term.WellFormed ts) ∧
    ∀ ts, Term.WellFormed ts → termsOf (Term.printAll ts) = .ok ts := by
  refine ⟨fun s ts h => ?_, fun ts => termsOf_printAll⟩
  have hw := wellFormed_of_termsOf h
  obtain ⟨xs, hs, hf, rfl⟩ := exists_items h
  exact ⟨Grammar.printAll_fused hs hf, termsOf_printAll hw, hw⟩

/-- Triplets are kept as they are, and a character outside ASCII becomes triplets. -/
theorem printAll_inverse_query :
    let ts : List Term := [.literal (lit "/%C3%A9%2f"), .expression .queryForm
      [⟨lit "a.%c3%a9", lit "a.é", .cut ⟨12, by decide⟩⟩, ⟨lit "x", lit "x", .explode⟩]]
    termsOf (lit "/é%2f\x7b?a.%c3%a9:12,x*\x7d") = .ok ts ∧
      Term.printAll ts = lit "/%C3%A9%2f\x7b?a.%c3%a9:12,x*\x7d" ∧
      termsOf (Term.printAll ts) = .ok ts := by
  intro ts
  have h : termsOf (lit "/é%2f\x7b?a.%c3%a9:12,x*\x7d") = .ok ts := by decide +kernel
  obtain ⟨hprinted, hagain, -⟩ := printAll_inverse.1 _ _ h
  exact ⟨h, hprinted.trans (by decide +kernel), hagain⟩

end UriTemplate

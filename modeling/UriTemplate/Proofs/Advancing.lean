import UriTemplate.Proofs.NormalForm
import UriTemplate.Proofs.Scalars

/-!
How far readers go. A reader that finds nothing stays where it is, and any other ends further on in
the same text: what it takes is written in the grammar, and of what is written there only the empty
text gives nothing. So terms stand in a row without gaps, and reading them ends.
-/

namespace UriTemplate

namespace Cursor

/-- No part of a text goes beyond its end. -/
lemma le_max_of_past {s u : Text} {i : Nat} {k : Cursor} (h : (seek s i).Past u k) :
    i + u.length ≤ max i s.length := by
  have hlength := congrArg List.length h.1
  rw [seek, List.length_drop, List.length_append] at hlength
  omega

end Cursor

namespace Grammar

/-! ### What gives nothing -/

lemma triplets_ne_nil {u : Text} {bs : List UInt8} (h : Triplets u bs) (hne : bs ≠ []) :
    u ≠ [] := by
  cases h with
  | nil => exact absurd rfl hne
  | cons => exact List.cons_ne_nil _ _

lemma varchar_ne_nil {u : Text} {c : CodePoint} (h : Varchar u c) : u ≠ [] := by
  obtain ⟨d, t, rfl, -⟩ := Production.exists_varchar h
  exact List.cons_ne_nil d t

lemma varname_ne_nil {u d : Text} (h : Varname u d) : u ≠ [] ∧ d ≠ [] := by
  obtain ⟨hc, -⟩ := h
  exact ⟨List.append_ne_nil_of_left_ne_nil (varchar_ne_nil hc) _, List.cons_ne_nil _ _⟩

lemma suffix_eq_nil_iff {u : Text} {m : Modifier} (h : Suffix u m) : u = [] ↔ m = .whole := by
  cases h <;> simp

lemma variable_ne_nil {u : Text} {v : Varspec} (h : Variable u v) : u ≠ [] := by
  obtain ⟨hn, -⟩ := h
  exact List.append_ne_nil_of_left_ne_nil (varname_ne_nil hn).1 _

lemma variableList_eq_nil_iff {u : Text} {vs : List Varspec} (h : VariableList u vs) :
    u = [] ↔ vs = [] := by
  cases h with
  | empty => simp
  | list hv => simp [variable_ne_nil hv]

/-- Any number of literal characters and triplets, and what they give. -/
inductive LiteralRun : Text → Text → Prop where
  | nil : LiteralRun [] []
  | cons {u t s d : Text} (h : Literal u t) (hs : LiteralRun s d) : LiteralRun (u ++ s) (t ++ d)

lemma literal_ne_nil {u t : Text} (h : Literal u t) : u ≠ [] ∧ t ≠ [] := by
  cases h with
  | verbatim => exact ⟨List.cons_ne_nil _ _, List.cons_ne_nil _ _⟩
  | @escaped c => exact ⟨List.cons_ne_nil _ _, Percent.escape_ne_nil c⟩
  | triplet => exact ⟨List.cons_ne_nil _ _, List.cons_ne_nil _ _⟩

namespace LiteralRun

lemma eq_nil_iff {u t : Text} (h : LiteralRun u t) : u = [] ↔ t = [] := by
  cases h with
  | nil => simp
  | cons h => simp [literal_ne_nil h]

/-- A run is a source, and its items are one literal. -/
theorem exists_source {u t : Text} (h : LiteralRun u t) (hne : u ≠ []) :
    ∃ xs, Source u xs ∧ Term.fused xs = [.literal t] := by
  induction h with
  | nil => exact absurd rfl hne
  | @cons u t s d h hs ih =>
    by_cases hnil : s = []
    · obtain rfl := hs.eq_nil_iff.mp hnil
      exact ⟨[.literal t], .cons (.literal h) (hnil ▸ .nil), by simp [Term.fused, Term.before]⟩
    · obtain ⟨xs, hx, hfused⟩ := ih hnil
      refine ⟨.literal t :: xs, .cons (.literal h) hx, ?_⟩
      rw [Term.fused, List.foldr_cons, ← Term.fused, hfused, Term.before]

end LiteralRun

end Grammar

namespace Production

open Cursor

/-! ### Literals -/

theorem literals_sound (k : Cursor) :
    ∃ u, k.Past u (literals k).2 ∧ Grammar.LiteralRun u (literals k).1 := by
  obtain ⟨i, s⟩ := k
  simp only [literals]
  fun_induction literalsFrom i s with
  | case1 i => exact ⟨[], .refl _, .nil⟩
  | case2 i c s t hc r ih =>
    obtain ⟨u, hu, hrun⟩ := ih
    have hpast : Past ⟨i, c :: s⟩ [c] ⟨i + 1, s⟩ := ⟨rfl, rfl⟩
    exact ⟨[c] ++ u, hpast.trans hu, .cons (literal_of_literalChar? hc) hrun⟩
  | case3 i c _ a b s ht r ih =>
    obtain ⟨u, hu, hrun⟩ := ih
    obtain ⟨rfl, ha, hb⟩ := Percent.isTriplet_iff.mp ht
    have hpast : Past ⟨i, .ofChar '%' :: a :: b :: s⟩ [.ofChar '%', a, b] ⟨i + 3, s⟩ := ⟨rfl, rfl⟩
    exact ⟨[.ofChar '%', a, b] ++ u, hpast.trans hu, .cons (.triplet ha hb) hrun⟩
  | case4 i c s => exact ⟨[], .refl _, .nil⟩
  | case5 i c s => exact ⟨[], .refl _, .nil⟩

/-- A run of literals is taken to its end: no literal follows it. -/
theorem literals_again (k : Cursor) : literals (literals k).2 = ([], (literals k).2) := by
  obtain ⟨i, s⟩ := k
  simp only [literals]
  fun_induction literalsFrom i s with
  | case1 i => rfl
  | case2 i c s t hc r ih => exact ih
  | case3 i c hc a b s ht r ih => exact ih
  | case4 i c hc a b s ht => simp [literalsFrom, hc, ht]
  | case5 i c s hc hs => simp [literalsFrom, hc]

/-! ### Terms in a row -/

/-- A term stands in a text from one position up to another: one of the two readers of terms takes it
there, and it is what the text in between writes. -/
structure Spans (s : Text) (i j : Nat) (x : Term) : Prop where
  lt : i < j
  le_length : j ≤ s.length
  taken : (∃ t, x = .literal t ∧ literals (.seek s i) = (t, .seek s j)) ∨
    expression (.seek s i) = some (x, .seek s j)
  written : ∃ xs, Grammar.Source ((s.take j).drop i) xs ∧ Term.fused xs = [x]

/-- Terms stand in a row in a text, each where the one before it ends, from one position up to
another. -/
inductive Row (s : Text) : Nat → List (Nat × Term) → Nat → Prop where
  | nil {i : Nat} : Row s i [] i
  | cons {i j e : Nat} {x : Term} {ps : List (Nat × Term)} (hx : Spans s i j x)
    (h : Row s j ps e) : Row s i ((i, x) :: ps) e

namespace Row

variable {s : Text} {i e : Nat} {ps : List (Nat × Term)}

/-- A row is at least as long as the number of its terms. -/
lemma add_length_le (h : Row s i ps e) : i + ps.length ≤ e := by
  induction h with
  | nil => exact Nat.le_refl _
  | @cons i j e x ps hx h ih =>
    have hlt := hx.lt
    rw [List.length_cons]
    omega

lemma le_max (h : Row s i ps e) : e ≤ max i s.length := by
  induction h with
  | nil => exact Nat.le_max_left _ _
  | cons hx h ih =>
    have hle := hx.le_length
    omega

lemma eq_iff (h : Row s i ps e) : e = i ↔ ps = [] := by
  have hle := h.add_length_le
  cases h with
  | nil => simp
  | cons =>
    rw [List.length_cons] at hle
    simp only [reduceCtorEq, iff_false]
    omega

lemma start_eq (h : Row s i ps e) : ∀ p ∈ ps.head?, p.1 = i := by
  cases h <;> simp

lemma starts_bounds (h : Row s i ps e) : ∀ n ∈ ps.map Prod.fst, i ≤ n ∧ n < e := by
  induction h with
  | nil => simp
  | @cons i j e x ps hx h ih =>
    have hlt := hx.lt
    have hle := h.add_length_le
    intro n hn
    rcases List.mem_cons.mp hn with rfl | hn
    · omega
    · have hbounds := ih n hn
      omega

/-- **Starts** come in strictly increasing order. -/
theorem starts_increasing (h : Row s i ps e) : (ps.map Prod.fst).Pairwise (· < ·) := by
  induction h with
  | nil => exact .nil
  | @cons i j e x ps hx h ih =>
    refine List.pairwise_cons.mpr ⟨fun n hn => ?_, ih⟩
    exact Nat.lt_of_lt_of_le hx.lt (h.starts_bounds n hn).1

end Row

lemma term_cases {k k' : Cursor} {x : Term} (h : term k = some (x, k')) :
    (∃ t, x = .literal t ∧ literals k = (t, k') ∧ k.pos < k'.pos) ∨
      literal k = none ∧ expression k = some (x, k') := by
  unfold term at h
  split at h
  · rename_i r hl
    cases h
    simp only [literal] at hl
    split_ifs at hl with hlt
    cases hl
    exact .inl ⟨_, rfl, rfl, hlt⟩
  · rename_i hl
    exact .inr ⟨hl, h⟩

/-- A part of a text that writes one term, and that a reader of terms takes, is where it stands. -/
lemma exists_spans {s u : Text} {i : Nat} {k : Cursor} {x : Term} {xs : List Term}
    (hu : Past (.seek s i) u k) (hne : u ≠ []) (hs : Grammar.Source u xs)
    (hfused : Term.fused xs = [x])
    (htaken : (∃ t, x = .literal t ∧ literals (.seek s i) = (t, k)) ∨
      expression (.seek s i) = some (x, k)) : ∃ j, k = .seek s j ∧ Spans s i j x := by
  obtain rfl := eq_seek_of_past hu
  obtain ⟨hle, hslice⟩ := (past_seek_iff hne).mp hu
  have hpos := List.length_pos_iff.mpr hne
  exact ⟨_, rfl, by omega, hle, htaken, xs, by rwa [hslice], hfused⟩

/-- **One term**, read at a position of a text, ends at a position of it. -/
theorem term_spans {s : Text} {i : Nat} {k : Cursor} {x : Term}
    (h : term (.seek s i) = some (x, k)) : ∃ j, k = .seek s j ∧ Spans s i j x := by
  rcases term_cases h with ⟨t, rfl, hl, hlt⟩ | ⟨-, he⟩
  · obtain ⟨u, hu, hrun⟩ := literals_sound (.seek s i)
    rw [hl] at hu hrun
    have hne : u ≠ [] := by
      rintro rfl
      exact absurd hu.2 (Nat.ne_of_gt hlt)
    obtain ⟨xs, hs, hfused⟩ := hrun.exists_source hne
    exact exists_spans hu hne hs hfused (.inl ⟨t, rfl, hl⟩)
  · obtain ⟨u, op, vs, rfl, hu, hx⟩ := expression_sound he
    have hitem := Grammar.Item.expression hx
    exact exists_spans hu (item_ne_nil hitem) (Grammar.source_singleton hitem) rfl (.inr he)

/-- **All terms** stand in a row, up to where no term is read. -/
theorem terms_row (s : Text) (i : Nat) : ∃ e, (terms (.seek s i)).2 = .seek s e ∧
    Row s i (terms (.seek s i)).1 e ∧ term (.seek s e) = none := by
  generalize hk : seek s i = k
  fun_induction terms k generalizing i with
  | case1 k x k' h r ih =>
    subst hk
    obtain ⟨j, rfl, hx⟩ := term_spans h
    obtain ⟨e, he, hrow, hend⟩ := ih j rfl
    exact ⟨e, he, .cons hx hrow, hend⟩
  | case2 k h =>
    subst hk
    exact ⟨i, rfl, .nil, h⟩

lemma head?_terms (k : Cursor) : (terms k).1.head? = (term k).map fun r => (k.pos, r.1) := by
  rcases h : term k with _ | ⟨x, k'⟩
  · rw [terms_none h]
    rfl
  · rw [terms_some h]
    rfl

/-- After a literal no other one is read. -/
lemma isLiteral_after {k k' k'' : Cursor} {x y : Term} (hx : term k = some (x, k'))
    (hy : term k' = some (y, k'')) (h : x.isLiteral = true) : y.isLiteral = false := by
  rcases term_cases hx with ⟨t, rfl, hl, -⟩ | ⟨-, he⟩
  · have hagain := literals_again k
    rw [hl] at hagain
    rcases term_cases hy with ⟨t', rfl, hl', hlt⟩ | ⟨-, he⟩
    · rw [hagain] at hl'
      cases hl'
      exact absurd hlt (Nat.lt_irrefl _)
    · obtain ⟨u, op, vs, rfl, -⟩ := expression_sound he
      rfl
  · obtain ⟨u, op, vs, rfl, -⟩ := expression_sound he
    cases h

/-- **No two literals** are next to each other. -/
theorem terms_apart (k : Cursor) : ((terms k).1.map Prod.snd).IsChain
    fun x y => ¬ (x.isLiteral = true ∧ y.isLiteral = true) := by
  fun_induction terms k with
  | case1 k x k' h r ih =>
    refine List.isChain_cons.mpr ⟨fun y hy hlit => ?_, ih⟩
    rw [List.head?_map, head?_terms] at hy
    rcases hterm : term k' with _ | ⟨z, k''⟩ <;> rw [hterm] at hy <;> cases hy
    rw [isLiteral_after h hterm hlit.1] at hlit
    cases hlit.2
  | case2 k h => exact .nil

/-! ### What readers report -/

/-- What a reader reports at a place: what it read there and the place after it, or that there is
nothing, and the place where it was. -/
def report {α β : Type} (nothing : β) (give : α → β) (read : Cursor → Option (α × Cursor))
    (k : Cursor) : β × Cursor :=
  match read k with
  | some (a, k') => (give a, k')
  | none => (nothing, k)

/-- Run at any position of any text or past its end, a reader ends at a position of the same text:
not before where it started, not past the end of the text unless it started there, and where it
started exactly if it reports nothing. -/
def Advances {β : Type} (nothing : β) (read : Cursor → β × Cursor) : Prop :=
  ∀ s i, ∃ e, (read (.seek s i)).2 = .seek s e ∧ i ≤ e ∧ e ≤ max i s.length ∧
    (e = i ↔ (read (.seek s i)).1 = nothing)

/-- A reader advances if only the empty text gives nothing. -/
lemma advances_of_past {β : Type} {nothing : β} {read : Cursor → β × Cursor}
    (h : ∀ k, ∃ u, k.Past u (read k).2 ∧ (u = [] ↔ (read k).1 = nothing)) :
    Advances nothing read := by
  intro s i
  obtain ⟨u, hu, hnothing⟩ := h (.seek s i)
  refine ⟨_, eq_seek_of_past hu, Nat.le_add_right _ _, le_max_of_past hu, ?_⟩
  rw [← hnothing, ← List.length_eq_zero_iff]
  omega

/-- So does one that never takes the empty text, nor gives nothing for what it took. -/
lemma advances_report {α β : Type} {nothing : β} {give : α → β}
    {read : Cursor → Option (α × Cursor)}
    (h : ∀ k a k', read k = some (a, k') → ∃ u, k.Past u k' ∧ u ≠ [] ∧ give a ≠ nothing) :
    Advances nothing (report nothing give read) := by
  refine advances_of_past fun k => ?_
  rcases hread : read k with _ | ⟨a, k'⟩
  · exact ⟨[], by simp [report, hread, Past.refl]⟩
  · obtain ⟨u, hu, hne, hgive⟩ := h k a k' hread
    exact ⟨u, by simp [report, hread, hu, hne, hgive]⟩

lemma advances_scalar : Advances none (report none some Percent.scalar?) := by
  refine advances_report fun k c k' h => ?_
  obtain ⟨u, hu, ht, -⟩ := Percent.scalar?_iff.mp h
  exact ⟨u, hu, Grammar.triplets_ne_nil ht (Utf8.encode_ne_nil c), Option.some_ne_none c⟩

lemma advances_varchar : Advances none (report none some varchar) := by
  refine advances_report fun k c k' h => ?_
  obtain ⟨u, hu, hc⟩ := varchar_sound h
  exact ⟨u, hu, Grammar.varchar_ne_nil hc, Option.some_ne_none c⟩

lemma advances_varname : Advances [] (report [] id varname) := by
  refine advances_report fun k d k' h => ?_
  obtain ⟨u, hu, hd⟩ := varname_sound h
  exact ⟨u, hu, Grammar.varname_ne_nil hd⟩

lemma advances_maxLength : Advances none (report none some maxLength) := by
  refine advances_report fun k n k' h => ?_
  obtain ⟨u, hu, ⟨-, -, -, -⟩⟩ := maxLength_sound h
  exact ⟨_, hu, List.cons_ne_nil _ _, Option.some_ne_none n⟩

lemma advances_cut : Advances none (report none some cut) := by
  refine advances_report fun k n k' h => ?_
  obtain ⟨u, hu, -⟩ := cut_sound h
  exact ⟨_, hu, List.cons_ne_nil _ u, Option.some_ne_none n⟩

lemma advances_modifier : Advances .whole modifier := by
  refine advances_of_past fun k => ?_
  obtain ⟨u, hu, hm⟩ := modifier_sound k
  exact ⟨u, hu, Grammar.suffix_eq_nil_iff hm⟩

lemma advances_varspec : Advances none (report none some varspec) := by
  refine advances_report fun k v k' h => ?_
  obtain ⟨u, hu, hv⟩ := varspec_sound h
  exact ⟨u, hu, Grammar.variable_ne_nil hv, Option.some_ne_none v⟩

lemma advances_variableList : Advances [] variableList := by
  refine advances_of_past fun k => ?_
  obtain ⟨u, hu, hvs⟩ := variableList_sound k
  exact ⟨u, hu, Grammar.variableList_eq_nil_iff hvs⟩

lemma advances_expression : Advances none (report none some expression) := by
  refine advances_report fun k x k' h => ?_
  obtain ⟨u, op, vs, -, hu, hx⟩ := expression_sound h
  exact ⟨u, hu, item_ne_nil (.expression hx), Option.some_ne_none x⟩

lemma advances_literals : Advances [] literals := by
  refine advances_of_past fun k => ?_
  obtain ⟨u, hu, hrun⟩ := literals_sound k
  exact ⟨u, hu, hrun.eq_nil_iff⟩

lemma advances_terms : Advances [] terms := by
  intro s i
  obtain ⟨e, he, hrow, -⟩ := terms_row s i
  exact ⟨e, he, Nat.le_of_add_right_le hrow.add_length_le, hrow.le_max, hrow.eq_iff⟩

/-- **Readers advance**: each of them, run at any position of any text or past its end, ends in the
text, further on exactly if it reports something. The terms that are read come each with the position
where it starts. These positions increase strictly, and the first is where reading started; each term
ends where the next one starts, and the last where reading ends; no two literals are next to each
other; and reading, which takes no more rounds than there are characters up to its end, goes on to
where there is no other term. -/
theorem readers_advance :
    Advances [] terms ∧ Advances [] literals ∧ Advances none (report none some expression) ∧
    Advances [] variableList ∧ Advances none (report none some varspec) ∧
    Advances [] (report [] id varname) ∧ Advances none (report none some varchar) ∧
    Advances .whole modifier ∧ Advances none (report none some cut) ∧
    Advances none (report none some maxLength) ∧
    Advances none (report none some Percent.scalar?) ∧
    ∀ s i, ∃ e, (terms (.seek s i)).2 = .seek s e ∧ Row s i (terms (.seek s i)).1 e ∧
      ((terms (.seek s i)).1.map Prod.fst).Pairwise (· < ·) ∧
      (∀ p ∈ (terms (.seek s i)).1.head?, p.1 = i) ∧
      ((terms (.seek s i)).1.map Prod.snd).IsChain
        (fun x y => ¬ (x.isLiteral = true ∧ y.isLiteral = true)) ∧
      i + (terms (.seek s i)).1.length ≤ e ∧ terms (.seek s e) = ([], .seek s e) := by
  refine ⟨advances_terms, advances_literals, advances_expression, advances_variableList,
    advances_varspec, advances_varname, advances_varchar, advances_modifier, advances_cut,
    advances_maxLength, advances_scalar, fun s i => ?_⟩
  obtain ⟨e, he, hrow, hend⟩ := terms_row s i
  exact ⟨e, he, hrow, hrow.starts_increasing, hrow.start_eq, terms_apart _, hrow.add_length_le,
    terms_none hend⟩

/-- Reading starts inside a literal and ends at a brace that opens nothing; past the end there is
nothing to read. -/
example : (terms (.seek (lit "ab\x7bx,\x7dc\x7b\x7d\x7b") 1)).1.map Prod.fst = [1] ∧
    terms (.seek (lit "ab") 5) = ([], .seek (lit "ab") 5) := by decide +kernel

end Production

end UriTemplate

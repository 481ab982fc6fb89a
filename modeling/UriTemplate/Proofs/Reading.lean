import UriTemplate.Proofs.Grammar
import UriTemplate.Syntax.Production

/-!
The readers against the grammar. What a reader takes is written in the grammar, with the value that
it gives; and what is written in the grammar a reader takes as a whole, if what comes next cannot
be a part of it. Inside an expression a comma or the closing brace comes next, and neither is a
part of a variable: this is why taking the longest match misses nothing.
-/

namespace UriTemplate

namespace Cursor

/-- Taking a text leads from one place to another. -/
def Past (k : Cursor) (u : Text) (k' : Cursor) : Prop :=
  k.rest = u ++ k'.rest ∧ k'.pos = k.pos + u.length

lemma Past.refl (k : Cursor) : k.Past [] k := ⟨rfl, rfl⟩

lemma Past.trans {k k' k'' : Cursor} {u v : Text} (h : k.Past u k') (h' : k'.Past v k'') :
    k.Past (u ++ v) k'' := by
  refine ⟨by rw [h.1, h'.1, List.append_assoc], ?_⟩
  rw [h'.2, h.2, List.length_append]
  omega

lemma past_seek_iff {s u : Text} {i e : Nat} (hu : u ≠ []) :
    (seek s i).Past u (seek s e) ↔ e ≤ s.length ∧ (s.take e).drop i = u := by
  have hpos : 0 < u.length := List.length_pos_iff.mpr hu
  simp only [Past, seek]
  constructor
  · rintro ⟨hrest, rfl⟩
    have hlength := congrArg List.length hrest
    rw [List.length_append, List.length_drop, List.length_drop] at hlength
    refine ⟨by omega, ?_⟩
    rw [List.drop_take, hrest, Nat.add_sub_cancel_left, List.take_left']
    rfl
  · rintro ⟨he, rfl⟩
    rw [List.length_drop, List.length_take, Nat.min_eq_left he] at hpos ⊢
    refine ⟨?_, by omega⟩
    have hdrop : s.drop e = (s.drop i).drop (e - i) := by
      rw [List.drop_drop]
      congr 1
      omega
    rw [hdrop, List.drop_take, List.take_append_drop]

/-- The place after a part of a text is a place of the same text. -/
lemma eq_seek_of_past {s u : Text} {i : Nat} {k : Cursor} (h : (seek s i).Past u k) :
    k = seek s (i + u.length) := by
  obtain ⟨hrest, hpos⟩ := h
  obtain ⟨j, r⟩ := k
  simp only [seek] at hrest hpos ⊢
  rw [← List.drop_drop, hrest, List.drop_left' rfl, hpos]

lemma past_of_after? {c : CodePoint} {k k' : Cursor} (h : k.after? c = some k') :
    k.Past [c] k' := by
  obtain ⟨i, _ | ⟨d, r⟩⟩ := k
  · simp [after?] at h
  · simp only [after?] at h
    split_ifs at h with hd
    cases h
    exact ⟨by rw [hd]; rfl, rfl⟩

@[simp] lemma after?_cons_self (c : CodePoint) (i : Nat) (r : Text) :
    after? c ⟨i, c :: r⟩ = some ⟨i + 1, r⟩ := by
  simp [after?]

lemma after?_cons_ne {c d : CodePoint} (h : d ≠ c) (i : Nat) (r : Text) :
    after? c ⟨i, d :: r⟩ = none := by
  simp [after?, h]

end Cursor

namespace Production

open Cursor

/-! ### Names -/

lemma scalarFrom_sound {q : Utf8.State} {i : Nat} {s : Text} {c : CodePoint} {k : Cursor}
    (h : Percent.scalarFrom q i s = some (c, k)) :
    ∃ u bs, Past ⟨i, s⟩ u k ∧ Grammar.Triplets u bs ∧ Utf8.complete? q bs = some c := by
  fun_induction Percent.scalarFrom q i s with
  | case1 q i p a b s ht c' hs =>
    cases h
    obtain ⟨rfl, ha, hb⟩ := Percent.isTriplet_iff.mp ht
    exact ⟨_, _, ⟨rfl, rfl⟩, .cons ha hb .nil, by simp [Utf8.complete?, hs]⟩
  | case2 q i p a b s ht q' hs ih =>
    obtain ⟨u, bs, hu, hbs, hc⟩ := ih h
    obtain ⟨rfl, ha, hb⟩ := Percent.isTriplet_iff.mp ht
    refine ⟨'%' :: a :: b :: u, _, ?_, .cons ha hb hbs, by simp [Utf8.complete?, hs, hc]⟩
    exact Past.trans (u := ['%', a, b]) ⟨rfl, rfl⟩ hu
  | case3 => cases h
  | case4 => cases h
  | case5 => cases h

lemma scalarFrom_complete {q : Utf8.State} {u : Text} {bs : List UInt8} {c : CodePoint}
    (hu : Grammar.Triplets u bs) (hc : Utf8.complete? q bs = some c) (i : Nat) (r : Text) :
    Percent.scalarFrom q i (u ++ r) = some (c, ⟨i + u.length, r⟩) := by
  induction hu generalizing q i with
  | nil => simp [Utf8.complete?] at hc
  | @cons a b u bs ha hb hu ih =>
    have ht : Percent.isTriplet '%' a b = true := Percent.isTriplet_iff.mpr ⟨rfl, ha, hb⟩
    simp only [List.cons_append, Percent.scalarFrom, ht, if_true]
    simp only [Utf8.complete?] at hc
    rcases hs : Utf8.step q (Percent.octet a b) with d | q' | _ <;> rw [hs] at hc <;>
      simp only [reduceCtorEq] at hc
    · split_ifs at hc with hb
      cases hc
      subst hb
      cases hu
      simp
    · simp only [ih hc, List.length_cons]
      congr 3
      omega

theorem varchar_sound {k k' : Cursor} {c : CodePoint} (h : varchar k = some (c, k')) :
    ∃ u, k.Past u k' ∧ Grammar.Varchar u c := by
  obtain ⟨i, _ | ⟨d, r⟩⟩ := k
  · simp [varchar] at h
  · simp only [varchar] at h
    split_ifs at h with hd
    · cases h
      exact ⟨[c], ⟨rfl, rfl⟩, .plain hd⟩
    · obtain ⟨u, bs, hu, hbs, hc⟩ := scalarFrom_sound h
      obtain ⟨hs, rfl⟩ := Utf8.eq_encode_of_complete? hc
      obtain ⟨e, rfl⟩ := Utf8.exists_char hs
      exact ⟨u, hu, .encoded (by rwa [Utf8.encode_ofChar] at hbs)⟩

theorem varchar_complete {u : Text} {c : CodePoint} (h : Grammar.Varchar u c) (i : Nat)
    (r : Text) : varchar ⟨i, u ++ r⟩ = some (c, ⟨i + u.length, r⟩) := by
  cases h with
  | plain hc => simp [varchar, hc]
  | @encoded _ d hu =>
    have hd : Utf8.complete? .boundary (String.utf8EncodeChar d) = some (.ofChar d) := by
      rw [← Utf8.encode_ofChar]
      exact Utf8.complete?_encode (Utf8.isSurrogate_ofChar d)
    have hs := scalarFrom_complete hu hd i r
    generalize String.utf8EncodeChar d = bs at hu hd
    cases hu with
    | nil => simp [Utf8.complete?] at hd
    | cons ha hb hu =>
      have hp : CharClass.varchar.admits '%' = false := by decide
      simpa [varchar, hp, Percent.scalar?] using hs

lemma varchar_eq_none {c : CodePoint} (hc : CharClass.varchar.admits c = false) (hp : c ≠ '%')
    (i : Nat) (r : Text) : varchar ⟨i, c :: r⟩ = none := by
  simp only [varchar, hc, Bool.false_eq_true, if_false, Percent.scalar?]
  match r with
  | [] => rfl
  | [_] => rfl
  | a :: b :: r => simp [Percent.scalarFrom, Percent.isTriplet, hp]

theorem dottedVarchar_sound {k k' : Cursor} {t : Text} (h : dottedVarchar k = some (t, k')) :
    ∃ u, k.Past u k' ∧ Grammar.Dotted u t := by
  unfold dottedVarchar at h
  split at h
  · rename_i hv
    cases h
    obtain ⟨u, hu, hc⟩ := varchar_sound hv
    exact ⟨u, hu, .plain hc⟩
  · split at h
    · cases h
    · rename_i hd
      split at h
      · rename_i hv
        cases h
        obtain ⟨u, hu, hc⟩ := varchar_sound hv
        exact ⟨'.' :: u, (past_of_after? hd).trans hu, .dot hc⟩
      · cases h

theorem dottedVarchar_complete {u t : Text} (h : Grammar.Dotted u t) (i : Nat) (r : Text) :
    dottedVarchar ⟨i, u ++ r⟩ = some (t, ⟨i + u.length, r⟩) := by
  cases h with
  | plain hc => simp [dottedVarchar, varchar_complete hc]
  | @dot u c hc =>
    have hd : varchar ⟨i, '.' :: (u ++ r)⟩ = none := varchar_eq_none (by decide) (by decide) _ _
    simp [dottedVarchar, hd, varchar_complete hc]
    omega

/-- A character after which no name goes on. -/
def Stops (c : CodePoint) : Prop :=
  CharClass.varchar.admits c = false ∧ c ≠ '%' ∧ c ≠ '.'

lemma dottedVarchar_eq_none {c : CodePoint} (hc : Stops c) (i : Nat) (r : Text) :
    dottedVarchar ⟨i, c :: r⟩ = none := by
  simp [dottedVarchar, varchar_eq_none hc.1 hc.2.1, after?_cons_ne hc.2.2]

lemma varnameTail_some {k k' : Cursor} {t : Text} (h : dottedVarchar k = some (t, k')) :
    varnameTail k = (t ++ (varnameTail k').1, (varnameTail k').2) := by
  rw [varnameTail]
  split <;> rename_i h' <;> rw [h] at h' <;> cases h'
  rfl

lemma varnameTail_none {k : Cursor} (h : dottedVarchar k = none) : varnameTail k = ([], k) := by
  rw [varnameTail]
  split <;> rename_i h' <;> rw [h] at h'
  cases h'

theorem varnameTail_sound (k : Cursor) :
    ∃ u, k.Past u (varnameTail k).2 ∧ Grammar.NameRest u (varnameTail k).1 := by
  fun_induction varnameTail k with
  | case1 k t k' h r ih =>
    obtain ⟨u, hu, ht⟩ := dottedVarchar_sound h
    obtain ⟨s, hs, hr⟩ := ih
    exact ⟨u ++ s, hu.trans hs, .cons ht hr⟩
  | case2 k h => exact ⟨[], .refl k, .nil⟩

theorem varnameTail_complete {s d : Text} (h : Grammar.NameRest s d) {c : CodePoint}
    (hc : Stops c) (i : Nat) (r : Text) :
    varnameTail ⟨i, s ++ c :: r⟩ = (d, ⟨i + s.length, c :: r⟩) := by
  induction h generalizing i with
  | nil => exact varnameTail_none (dottedVarchar_eq_none hc i r)
  | @cons u s t d hu hs ih =>
    rw [List.append_assoc, varnameTail_some (dottedVarchar_complete hu i (s ++ c :: r)), ih,
      List.length_append, Nat.add_assoc]

theorem varname_sound {k k' : Cursor} {d : Text} (h : varname k = some (d, k')) :
    ∃ u, k.Past u k' ∧ Grammar.Varname u d := by
  unfold varname at h
  split at h
  · rename_i hv
    cases h
    obtain ⟨u, hu, hc⟩ := varchar_sound hv
    obtain ⟨s, hs, hd⟩ := varnameTail_sound _
    exact ⟨u ++ s, hu.trans hs, .mk hc hd⟩
  · cases h

theorem varname_complete {u d : Text} (h : Grammar.Varname u d) {c : CodePoint} (hc : Stops c)
    (i : Nat) (r : Text) : varname ⟨i, u ++ c :: r⟩ = some (d, ⟨i + u.length, c :: r⟩) := by
  cases h with
  | mk hv hs =>
    simp only [varname, List.append_assoc, varchar_complete hv, varnameTail_complete hs hc,
      List.length_append, Nat.add_assoc]

/-! ### Modifiers -/

/-- A character that comes after a variable. -/
def Closes (c : CodePoint) : Prop := c = ',' ∨ c = '}'

lemma Closes.stops {c : CodePoint} (h : Closes c) : Stops c := by
  rcases h with rfl | rfl <;> exact ⟨by decide, by decide, by decide⟩

lemma moreDigits_sound (count n : Nat) (k : Cursor) :
    ∃ u, k.Past u (moreDigits count n k).2 ∧ (∀ c ∈ u, CharClass.digit.admits c = true) ∧
      u.length ≤ count ∧
      (moreDigits count n k).1 = u.foldl (fun n c => 10 * n + (c.val - 0x30)) n := by
  fun_induction moreDigits count n k with
  | case1 n k more c r hk hc ih =>
    obtain ⟨u, hu, hd, hl, hn⟩ := ih
    have hp : k.Past [c] ⟨k.pos + 1, r⟩ := ⟨hk, rfl⟩
    exact ⟨c :: u, hp.trans hu, by simpa [hc] using hd, by simpa using hl, hn⟩
  | case2 n k => exact ⟨[], .refl _, by simp, by simp, rfl⟩
  | case3 n k => exact ⟨[], .refl _, by simp, by simp, rfl⟩

lemma moreDigits_complete {u : Text} (hu : ∀ c ∈ u, CharClass.digit.admits c = true) {c : CodePoint}
    (hc : CharClass.digit.admits c = false) (count n i : Nat) (hl : u.length ≤ count) (r : Text) :
    moreDigits count n ⟨i, u ++ c :: r⟩ =
      (u.foldl (fun n c => 10 * n + (c.val - 0x30)) n, ⟨i + u.length, c :: r⟩) := by
  induction u generalizing count n i with
  | nil => cases count <;> simp [moreDigits, hc]
  | cons d u ih =>
    rcases count with _ | count
    · simp at hl
    · have hd := hu d (by simp)
      simp only [List.cons_append, moreDigits, hd, if_true, List.foldl_cons, List.length_cons]
      rw [ih (fun c h => hu c (List.mem_cons_of_mem _ h)) count _ _ (by simpa using hl)]
      congr 2
      omega

lemma maxLength_sound {k k' : Cursor} {n : CutLength} (h : maxLength k = some (n, k')) :
    ∃ u, k.Past u k' ∧ Grammar.Length u n := by
  obtain ⟨i, _ | ⟨d, r⟩⟩ := k
  · simp [maxLength] at h
  · simp only [maxLength] at h
    split_ifs at h with hd
    cases h
    obtain ⟨u, hu, hds, hl, hn⟩ := moreDigits_sound 3 (d.val - 0x30) ⟨i + 1, r⟩
    have hp : Past ⟨i, d :: r⟩ [d] ⟨i + 1, r⟩ := ⟨rfl, rfl⟩
    exact ⟨d :: u, hp.trans hu, .mk hd hds hl (by simpa [Grammar.decimal] using hn)⟩

lemma maxLength_complete {u : Text} {n : CutLength} (h : Grammar.Length u n) {c : CodePoint}
    (hc : CharClass.digit.admits c = false) (i : Nat) (r : Text) :
    maxLength ⟨i, u ++ c :: r⟩ = some (n, ⟨i + u.length, c :: r⟩) := by
  obtain @⟨d, ds, n, hd, hds, hl, hn⟩ := h
  have hm := moreDigits_complete hds hc 3 (d.val - 0x30) (i + 1) hl r
  simp only [List.cons_append, maxLength, hd, and_self, dif_pos, Option.some.injEq, Prod.mk.injEq]
  refine ⟨Subtype.ext ?_, ?_⟩
  · simp only [hm, hn, Grammar.decimal, List.foldl_cons, Nat.mul_zero, Nat.zero_add]
  · simp only [hm, List.length_cons]
    congr 1
    omega

lemma cut_sound {k k' : Cursor} {n : CutLength} (h : cut k = some (n, k')) :
    ∃ u, k.Past (':' :: u) k' ∧ Grammar.Length u n := by
  unfold cut at h
  split at h
  · rename_i hd
    obtain ⟨u, hu, hn⟩ := maxLength_sound h
    exact ⟨u, (past_of_after? hd).trans hu, hn⟩
  · cases h

theorem modifier_sound (k : Cursor) :
    ∃ u, k.Past u (modifier k).2 ∧ Grammar.Suffix u (modifier k).1 := by
  unfold modifier
  split
  · rename_i h
    obtain ⟨u, hu, hn⟩ := cut_sound h
    exact ⟨_, hu, .cut hn⟩
  · split
    · rename_i h
      exact ⟨['*'], past_of_after? h, .explode⟩
    · exact ⟨[], .refl k, .whole⟩

theorem modifier_complete {u : Text} {m : Modifier} (h : Grammar.Suffix u m) {c : CodePoint}
    (hc : Closes c) (i : Nat) (r : Text) :
    modifier ⟨i, u ++ c :: r⟩ = (m, ⟨i + u.length, c :: r⟩) := by
  cases h with
  | whole =>
    have h1 : c ≠ ':' := by rcases hc with rfl | rfl <;> decide
    have h2 : c ≠ '*' := by rcases hc with rfl | rfl <;> decide
    simp [modifier, cut, after?_cons_ne h1, after?_cons_ne h2]
  | @cut u n hn =>
    have h1 : CharClass.digit.admits c = false := by rcases hc with rfl | rfl <;> decide
    simp only [modifier, cut, List.cons_append, after?_cons_self, maxLength_complete hn h1,
      List.length_cons]
    congr 2
    omega
  | explode =>
    have h1 : CodePoint.ofChar '*' ≠ CodePoint.ofChar ':' := by decide
    simp [modifier, cut, after?_cons_ne h1]

/-! ### Variables -/

theorem varspec_sound {k k' : Cursor} {v : Varspec} (h : varspec k = some (v, k')) :
    ∃ u, k.Past u k' ∧ Grammar.Variable u v := by
  unfold varspec at h
  split at h
  · rename_i d e hn
    cases h
    obtain ⟨u, hu, hd⟩ := varname_sound hn
    obtain ⟨s, hs, hm⟩ := modifier_sound e
    have ht : k.rest.take (e.pos - k.pos) = u := by
      rw [hu.1, hu.2, Nat.add_sub_cancel_left, List.take_left']
      rfl
    rw [ht]
    exact ⟨u ++ s, hu.trans hs, .mk hd hm⟩
  · cases h

/-- No name goes on at a modifier, nor after a variable. -/
lemma exists_stops {s : Text} {m : Modifier} (h : Grammar.Suffix s m) {c : CodePoint}
    (hc : Closes c) (r : Text) : ∃ d t, s ++ c :: r = d :: t ∧ Stops d := by
  cases h with
  | whole => exact ⟨c, r, rfl, hc.stops⟩
  | cut => exact ⟨':', _, rfl, by decide, by decide, by decide⟩
  | explode => exact ⟨'*', _, rfl, by decide, by decide, by decide⟩

theorem varspec_complete {u : Text} {v : Varspec} (h : Grammar.Variable u v) {c : CodePoint}
    (hc : Closes c) (i : Nat) (r : Text) :
    varspec ⟨i, u ++ c :: r⟩ = some (v, ⟨i + u.length, c :: r⟩) := by
  obtain @⟨u, d, s, m, hn, hm⟩ := h
  obtain ⟨e, t, he, hs⟩ := exists_stops hm hc r
  have hv := varname_complete hn hs i t
  rw [← he] at hv
  simp only [varspec, List.append_assoc, hv, modifier_complete hm hc, Nat.add_sub_cancel_left,
    List.take_left', List.length_append, Nat.add_assoc]

lemma moreVarspecs_some {k k' : Cursor} {v : Varspec} (h : nextVarspec k = some (v, k')) :
    moreVarspecs k = (v :: (moreVarspecs k').1, (moreVarspecs k').2) := by
  rw [moreVarspecs]
  split <;> rename_i h' <;> rw [h] at h' <;> cases h'
  rfl

lemma moreVarspecs_none {k : Cursor} (h : nextVarspec k = none) : moreVarspecs k = ([], k) := by
  rw [moreVarspecs]
  split <;> rename_i h' <;> rw [h] at h'
  cases h'

theorem moreVarspecs_sound (k : Cursor) :
    ∃ u, k.Past u (moreVarspecs k).2 ∧ Grammar.MoreVariables u (moreVarspecs k).1 := by
  fun_induction moreVarspecs k with
  | case1 k v k' h r ih =>
    obtain ⟨s, hs, hr⟩ := ih
    unfold nextVarspec at h
    split at h
    · rename_i hd
      obtain ⟨u, hu, hv⟩ := varspec_sound h
      exact ⟨_, ((past_of_after? hd).trans hu).trans hs, .cons hv hr⟩
    · cases h
  | case2 k h => exact ⟨[], .refl k, .nil⟩

/-- More variables begin with a comma, and after the last one the expression is closed. -/
lemma exists_closes {s : Text} {vs : List Varspec} (h : Grammar.MoreVariables s vs) (r : Text) :
    ∃ c t, s ++ .ofChar '}' :: r = c :: t ∧ Closes c := by
  cases h with
  | nil => exact ⟨_, _, rfl, .inr rfl⟩
  | cons => exact ⟨_, _, rfl, .inl rfl⟩

theorem moreVarspecs_complete {s : Text} {vs : List Varspec} (h : Grammar.MoreVariables s vs)
    (i : Nat) (r : Text) :
    moreVarspecs ⟨i, s ++ .ofChar '}' :: r⟩ = (vs, ⟨i + s.length, .ofChar '}' :: r⟩) := by
  have hb : CodePoint.ofChar '}' ≠ CodePoint.ofChar ',' := by decide
  induction h generalizing i with
  | nil => exact moreVarspecs_none (by simp [nextVarspec, after?_cons_ne hb])
  | @cons u s v vs hv hs ih =>
    obtain ⟨c, t, ht, hc⟩ := exists_closes hs r
    have hn : nextVarspec ⟨i, .ofChar ',' :: (u ++ (s ++ .ofChar '}' :: r))⟩ =
        some (v, ⟨i + 1 + u.length, s ++ .ofChar '}' :: r⟩) := by
      simp only [nextVarspec, after?_cons_self, ht]
      exact varspec_complete hv hc _ _
    rw [List.cons_append, List.append_assoc, moreVarspecs_some hn, ih]
    simp only [List.length_cons, List.length_append]
    congr 2
    omega

theorem variableList_sound (k : Cursor) :
    ∃ u, k.Past u (variableList k).2 ∧ Grammar.VariableList u (variableList k).1 := by
  unfold variableList
  split
  · rename_i h
    obtain ⟨u, hu, hv⟩ := varspec_sound h
    obtain ⟨s, hs, hvs⟩ := moreVarspecs_sound _
    exact ⟨u ++ s, hu.trans hs, .list hv hvs⟩
  · exact ⟨[], .refl k, .empty⟩

theorem variableList_complete {u : Text} {vs : List Varspec} (h : Grammar.VariableList u vs)
    (i : Nat) (r : Text) :
    variableList ⟨i, u ++ .ofChar '}' :: r⟩ = (vs, ⟨i + u.length, .ofChar '}' :: r⟩) := by
  cases h with
  | empty =>
    have hb : Stops (.ofChar '}') := Closes.stops (.inr rfl)
    have hv : varspec ⟨i, .ofChar '}' :: r⟩ = none := by
      simp [varspec, varname, varchar_eq_none hb.1 hb.2.1]
    simp [variableList, hv]
  | @list u s v vs hv hs =>
    obtain ⟨c, t, ht, hc⟩ := exists_closes hs r
    have hd := varspec_complete hv hc i t
    rw [← ht] at hd
    simp only [variableList, List.append_assoc, hd, moreVarspecs_complete hs, List.length_append,
      Nat.add_assoc]

/-! ### Expressions -/

lemma opener_of_ofTrigger? {c : CodePoint} {op : Operator} (h : Operator.ofTrigger? c = some op) :
    Grammar.Opener [c] op := by
  have hc := List.find?_some h
  cases op <;> simp [Operator.style] at hc
  case future => rcases hc with rfl | rfl | rfl | rfl | rfl <;> constructor
  all_goals
    subst hc
    constructor

lemma ofTrigger?_of_opener {c : CodePoint} {op : Operator} (h : Grammar.Opener [c] op) :
    Operator.ofTrigger? c = some op := by
  cases h <;> rfl

/-- What opens an expression is no character of a name and no closing brace. -/
lemma ofTrigger?_eq_none {c : CodePoint}
    (h : CharClass.varchar.admits c = true ∨ c = '%' ∨ c = '}') :
    Operator.ofTrigger? c = none := by
  rcases ho : Operator.ofTrigger? c with _ | op
  · rfl
  · exfalso
    revert h
    cases opener_of_ofTrigger? ho <;> decide

theorem trigger_sound (k : Cursor) :
    ∃ u, k.Past u (trigger k).2 ∧ Grammar.Opener u (trigger k).1 := by
  obtain ⟨i, _ | ⟨c, r⟩⟩ := k
  · exact ⟨[], .refl _, .simple⟩
  · rcases h : Operator.ofTrigger? c with _ | op
    · simp only [trigger, h]
      exact ⟨[], .refl _, .simple⟩
    · simp only [trigger, h]
      exact ⟨[c], ⟨rfl, rfl⟩, opener_of_ofTrigger? h⟩

lemma exists_triplets {u : Text} {c : Char} (h : Grammar.Triplets u (String.utf8EncodeChar c)) :
    ∃ t, u = .ofChar '%' :: t := by
  have hc := String.utf8EncodeChar_ne_nil (c := c)
  generalize String.utf8EncodeChar c = bs at h hc
  cases h with
  | nil => exact absurd rfl hc
  | cons => exact ⟨_, rfl⟩

lemma exists_varchar {u : Text} {c : CodePoint} (h : Grammar.Varchar u c) :
    ∃ d t, u = d :: t ∧ (CharClass.varchar.admits d = true ∨ d = '%') := by
  cases h with
  | plain hc => exact ⟨_, [], rfl, .inl hc⟩
  | encoded hu =>
    obtain ⟨t, rfl⟩ := exists_triplets hu
    exact ⟨_, t, rfl, .inr rfl⟩

lemma exists_variableList {u : Text} {vs : List Varspec} (h : Grammar.VariableList u vs)
    (r : Text) : ∃ c t, u ++ .ofChar '}' :: r = c :: t ∧ Operator.ofTrigger? c = none := by
  cases h with
  | empty => exact ⟨_, _, rfl, rfl⟩
  | list hv =>
    obtain ⟨⟨hc, -⟩, -⟩ := hv
    obtain ⟨c, t, rfl, h⟩ := exists_varchar hc
    exact ⟨c, _, rfl, ofTrigger?_eq_none (h.imp id .inl)⟩

theorem trigger_complete {o : Text} {op : Operator} (h : Grammar.Opener o op) {c : CodePoint}
    (hc : Operator.ofTrigger? c = none) (i : Nat) (r : Text) :
    trigger ⟨i, o ++ c :: r⟩ = (op, ⟨i + o.length, c :: r⟩) := by
  rcases o with _ | ⟨d, o⟩
  · cases h
    simp [trigger, hc]
  · have ho : o = [] := by cases h <;> rfl
    subst ho
    simp [trigger, ofTrigger?_of_opener h]

theorem expression_sound {k k' : Cursor} {x : Term} (h : expression k = some (x, k')) :
    ∃ u op vs, x = .expression op vs ∧ k.Past u k' ∧ Grammar.Expression u op vs := by
  unfold expression at h
  split at h
  · cases h
  · rename_i d hd
    dsimp only at h
    split at h
    · rename_i he
      cases h
      obtain ⟨o, ho, hop⟩ := trigger_sound d
      obtain ⟨u, hu, hvs⟩ := variableList_sound (trigger d).2
      refine ⟨_, _, _, rfl, ?_, .mk hop hvs⟩
      exact (past_of_after? hd).trans (ho.trans (hu.trans (past_of_after? he)))
    · cases h

theorem expression_complete {u : Text} {op : Operator} {vs : List Varspec}
    (h : Grammar.Expression u op vs) (i : Nat) (r : Text) :
    expression ⟨i, u ++ r⟩ = some (.expression op vs, ⟨i + u.length, r⟩) := by
  obtain @⟨o, u, op, vs, ho, hu⟩ := h
  obtain ⟨c, t, ht, hc⟩ := exists_variableList hu r
  have htr := trigger_complete ho hc (i + 1) t
  rw [← ht] at htr
  have hv := variableList_complete hu (i + 1 + o.length) r
  simp only [expression, List.cons_append, List.append_assoc, List.nil_append, after?_cons_self,
    htr, hv, List.length_cons, List.length_append, List.length_nil]
  congr 3
  omega

/-! ### Literals -/

lemma literal_of_literalChar? {c : CodePoint} {t : Text} (h : literalChar? c = some t) :
    Grammar.Literal [c] t := by
  unfold literalChar? at h
  split_ifs at h with h1 h2 <;> cases h
  · exact .verbatim h1
  · exact .escaped (by simpa using h2)

/-- What opens an expression or a triplet is no literal character. -/
lemma literalChar?_eq_none {c : CodePoint} (h : c = '%' ∨ c = '{') : literalChar? c = none := by
  rcases h with rfl | rfl <;> rfl

lemma literal_cases {u t : Text} (h : Grammar.Literal u t) :
    (∃ c, u = [c] ∧ literalChar? c = some t) ∨
      ∃ a b : CodePoint, u = (['%', a, b] : Text) ∧ t = u ∧ Percent.isTriplet '%' a b = true := by
  cases h with
  | @verbatim c hc => exact .inl ⟨c, rfl, by simp [literalChar?, hc]⟩
  | @escaped c hc =>
    have hv : CharClass.literal.admits c = false := by
      simp [CharClass.admits, CharClass.holds, CharClass.inRanges, CharClass.ucscharRanges,
        CharClass.iprivateRanges, CharClass.literalRanges, CharClass.between] at hc ⊢
      omega
    refine .inl ⟨c, rfl, ?_⟩
    simp only [literalChar?, hv, Bool.or_eq_true, hc, if_true, if_false, Bool.false_eq_true]
  | @triplet a b ha hb => exact .inr ⟨a, b, rfl, rfl, Percent.isTriplet_iff.mpr ⟨rfl, ha, hb⟩⟩

/-- A literal at the front is taken, and the run goes on after it. -/
theorem literals_cons {u t : Text} (h : Grammar.Literal u t) (i : Nat) (r : Text) :
    literals ⟨i, u ++ r⟩ =
      (t ++ (literals ⟨i + u.length, r⟩).1, (literals ⟨i + u.length, r⟩).2) := by
  rcases literal_cases h with ⟨c, rfl, hc⟩ | ⟨a, b, rfl, rfl, ht⟩
  · rcases r with _ | ⟨a, _ | ⟨b, r⟩⟩ <;> simp [literals, literalsFrom, hc]
  · have hp : literalChar? '%' = none := rfl
    simp [literals, literalsFrom, hp, ht]

/-- Without a literal at the front the run is empty. -/
theorem literals_nil {s : Text} (h : ∀ u t r, Grammar.Literal u t → s ≠ u ++ r) (i : Nat) :
    literals ⟨i, s⟩ = ([], ⟨i, s⟩) := by
  rcases s with _ | ⟨c, s⟩
  · rfl
  · have hl : literalChar? c = none := by
      rcases hc : literalChar? c with _ | t
      · rfl
      · exact absurd rfl (h [c] t s (literal_of_literalChar? hc))
    rcases s with _ | ⟨a, _ | ⟨b, r⟩⟩
    · simp [literals, literalsFrom, hl]
    · simp [literals, literalsFrom, hl]
    · by_cases ht : Percent.isTriplet c a b = true
      · obtain ⟨rfl, ha, hb⟩ := Percent.isTriplet_iff.mp ht
        exact absurd rfl (h _ _ r (.triplet ha hb))
      · simp [literals, literalsFrom, hl, ht]

end Production

end UriTemplate

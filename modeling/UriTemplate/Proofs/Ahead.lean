import UriTemplate.Proofs.Advancing
import UriTemplate.Proofs.Indexed

/-!
Readers see only what lies ahead. The position of a place is only ever counted on or compared with
that of another place, so that the same text read further on gives the same, further on: the name of
a variable is cut out by the distance of two places, and only the starts of terms tell where they
are. A place holds none of the text behind it. That this text is never looked at is therefore said
of reading by index, which is given the whole text.
-/

namespace UriTemplate

namespace Cursor

/-- The place so many positions further on, with the same text ahead. -/
def shift (n : Nat) (k : Cursor) : Cursor := ⟨n + k.pos, k.rest⟩

@[simp] lemma pos_shift (n : Nat) (k : Cursor) : (k.shift n).pos = n + k.pos := rfl

@[simp] lemma rest_shift (n : Nat) (k : Cursor) : (k.shift n).rest = k.rest := rfl

/-- A position of a text is a position of the text from some place on, moved on by that place. -/
lemma shift_seek (s : Text) (i e : Nat) : (seek (s.drop i) e).shift i = seek s (i + e) := by
  simp only [shift, seek, List.drop_drop]

@[simp] lemma after?_shift (c : CodePoint) (n : Nat) (k : Cursor) :
    (k.shift n).after? c = (k.after? c).map (shift n) := by
  obtain ⟨i, _ | ⟨d, r⟩⟩ := k
  · rfl
  · simp only [shift, after?]
    split_ifs <;> rfl

end Cursor

namespace Production

open Cursor

/-- A reader that reads the same at a place moved on, and ends at the place where it ended moved on
by as much. -/
def Movable {α : Type} (read : Cursor → Option (α × Cursor)) : Prop :=
  ∀ n k, read (k.shift n) = (read k).map (Prod.map id (shift n))

namespace Movable

variable {α : Type} {read : Cursor → Option (α × Cursor)} {k k' : Cursor} {a : α}

lemma eq_some (h : Movable read) (hk : read k = some (a, k')) (n : Nat) :
    read (k.shift n) = some (a, k'.shift n) := by
  rw [h n k, hk]
  rfl

lemma eq_none (h : Movable read) (hk : read k = none) (n : Nat) : read (k.shift n) = none := by
  rw [h n k, hk]
  rfl

/-- What is read after a given character is movable with what is read. -/
lemma after (h : Movable read) (c : CodePoint) : Movable fun k =>
    match k.after? c with
    | some d => read d
    | none => none := by
  intro n k
  simp only [after?_shift]
  rcases k.after? c with _ | d
  · rfl
  · exact h n d

end Movable

/-! ### Names -/

lemma scalarFrom_shift (n : Nat) (q : Utf8.State) (i : Nat) (s : Text) :
    Percent.scalarFrom q (n + i) s =
      (Percent.scalarFrom q i s).map (Prod.map id (shift n)) := by
  fun_induction Percent.scalarFrom q i s with
  | case1 q i p a b s ht c hs => simp [Percent.scalarFrom, ht, hs, shift, Nat.add_assoc]
  | case2 q i p a b s ht q' hs ih =>
    rw [← ih]
    simp [Percent.scalarFrom, ht, hs, Nat.add_assoc]
  | case3 q i p a b s ht hs => simp [Percent.scalarFrom, ht, hs]
  | case4 q i p a b s ht => simp [Percent.scalarFrom, ht]
  | case5 q i s hs => simp [Percent.scalarFrom]

lemma movable_scalar : Movable Percent.scalar? :=
  fun n k => scalarFrom_shift n .boundary k.pos k.rest

lemma movable_varchar : Movable varchar := by
  intro n k
  obtain ⟨i, _ | ⟨c, r⟩⟩ := k
  · rfl
  · by_cases hc : CharClass.varchar.admits c = true
    · simp [varchar, shift, hc, Nat.add_assoc]
    · have hs := movable_scalar n ⟨i, c :: r⟩
      simpa [varchar, shift, hc] using hs

lemma movable_dottedVarchar : Movable dottedVarchar := by
  intro n k
  unfold dottedVarchar
  rw [movable_varchar, after?_shift]
  rcases varchar k with _ | ⟨c, k'⟩
  · rcases k.after? '.' with _ | d
    · rfl
    · simp only [Option.map_none, Option.map_some, movable_varchar n d]
      rcases varchar d with _ | ⟨c, k'⟩ <;> rfl
  · rfl

lemma varnameTail_shift (n : Nat) (k : Cursor) :
    varnameTail (k.shift n) = Prod.map id (shift n) (varnameTail k) := by
  fun_induction varnameTail k with
  | case1 k t k' h r ih =>
    rw [varnameTail_some (movable_dottedVarchar.eq_some h n), ih]
    rfl
  | case2 k h =>
    rw [varnameTail_none (movable_dottedVarchar.eq_none h n)]
    rfl

lemma movable_varname : Movable varname := by
  intro n k
  unfold varname
  rw [movable_varchar]
  rcases varchar k with _ | ⟨c, k'⟩
  · rfl
  · simp only [Option.map_some, Prod.map_apply, varnameTail_shift]
    rfl

/-! ### Modifiers -/

lemma moreDigits_shift (n count m : Nat) (k : Cursor) :
    moreDigits count m (k.shift n) = Prod.map id (shift n) (moreDigits count m k) := by
  induction count generalizing m k with
  | zero => simp [moreDigits]
  | succ more ih =>
    obtain ⟨i, _ | ⟨c, r⟩⟩ := k
    · rfl
    · simp only [shift, moreDigits]
      split_ifs
      · exact ih _ ⟨i + 1, r⟩
      · rfl

lemma movable_maxLength : Movable maxLength := by
  intro n k
  obtain ⟨i, _ | ⟨c, r⟩⟩ := k
  · rfl
  · have hd : moreDigits 3 (c.val - 0x30) ⟨n + i + 1, r⟩ = _ :=
      moreDigits_shift n 3 (c.val - 0x30) ⟨i + 1, r⟩
    simp only [shift, maxLength]
    split_ifs
    · simp only [hd, Prod.map_fst, Prod.map_snd, id_eq, Option.map_some, Prod.map_apply]
    · rfl

lemma movable_cut : Movable cut := movable_maxLength.after ':'

lemma modifier_shift (n : Nat) (k : Cursor) :
    modifier (k.shift n) = Prod.map id (shift n) (modifier k) := by
  unfold modifier
  rw [movable_cut, after?_shift]
  rcases cut k with _ | ⟨m, k'⟩
  · rcases k.after? '*' with _ | k' <;> rfl
  · rfl

/-! ### Variables and expressions -/

/-- The name is what lies between two places, and their distance stays the same. -/
lemma movable_varspec : Movable varspec := by
  intro n k
  unfold varspec
  rw [movable_varname]
  rcases varname k with _ | ⟨d, e⟩
  · rfl
  · simp [modifier_shift, Nat.add_sub_add_left]

lemma movable_nextVarspec : Movable nextVarspec := movable_varspec.after ','

lemma moreVarspecs_shift (n : Nat) (k : Cursor) :
    moreVarspecs (k.shift n) = Prod.map id (shift n) (moreVarspecs k) := by
  fun_induction moreVarspecs k with
  | case1 k v k' h r ih =>
    rw [moreVarspecs_some (movable_nextVarspec.eq_some h n), ih]
    rfl
  | case2 k h =>
    rw [moreVarspecs_none (movable_nextVarspec.eq_none h n)]
    rfl

lemma variableList_shift (n : Nat) (k : Cursor) :
    variableList (k.shift n) = Prod.map id (shift n) (variableList k) := by
  unfold variableList
  rw [movable_varspec]
  rcases varspec k with _ | ⟨v, k'⟩
  · rfl
  · simp only [Option.map_some, Prod.map_apply, moreVarspecs_shift]
    rfl

lemma trigger_shift (n : Nat) (k : Cursor) :
    trigger (k.shift n) = Prod.map id (shift n) (trigger k) := by
  obtain ⟨i, _ | ⟨c, r⟩⟩ := k
  · rfl
  · simp only [shift, trigger]
    rcases Operator.ofTrigger? c with _ | op <;> rfl

lemma movable_expression : Movable expression := by
  intro n k
  unfold expression
  rw [after?_shift]
  rcases k.after? '{' with _ | d
  · rfl
  · simp only [Option.map_some, trigger_shift, Prod.map_fst, Prod.map_snd, variableList_shift,
      after?_shift, id_eq]
    rcases (variableList (trigger d).2).2.after? '}' with _ | k' <;> rfl

/-! ### Terms -/

lemma literalsFrom_shift (n i : Nat) (s : Text) :
    literalsFrom (n + i) s = Prod.map id (shift n) (literalsFrom i s) := by
  fun_induction literalsFrom i s with
  | case1 i => rfl
  | case2 i c s t hc r ih =>
    rw [← Nat.add_assoc] at ih
    rw [literalsFrom.eq_def]
    simp only [hc, ih]
    rfl
  | case3 i c hc a b s ht r ih =>
    rw [← Nat.add_assoc] at ih
    simp only [literalsFrom, hc, ht, if_true, ih]
    rfl
  | case4 i c hc a b s ht => simp [literalsFrom, hc, ht, shift]
  | case5 i c s hc hs => simp [literalsFrom, hc, shift]

lemma literals_shift (n : Nat) (k : Cursor) :
    literals (k.shift n) = Prod.map id (shift n) (literals k) :=
  literalsFrom_shift n k.pos k.rest

lemma movable_literal : Movable literal := by
  intro n k
  simp only [literal, literals_shift, Prod.map_fst, Prod.map_snd, pos_shift,
    Nat.add_lt_add_iff_left, id_eq]
  split_ifs <;> rfl

lemma movable_term : Movable term := by
  intro n k
  unfold term
  rw [movable_literal]
  rcases literal k with _ | r
  · exact movable_expression n k
  · rfl

/-- Terms move with the positions where they start. -/
theorem terms_shift (n : Nat) (k : Cursor) :
    terms (k.shift n) = Prod.map (List.map (Prod.map (n + ·) id)) (shift n) (terms k) := by
  fun_induction terms k with
  | case1 k x k' h r ih =>
    rw [terms_some (movable_term.eq_some h n), ih]
    rfl
  | case2 k h =>
    rw [terms_none (movable_term.eq_none h n)]
    rfl

/-! ### Positions of a text -/

/-- Run at a position of any text or past its end, a reader reports what it reports at the beginning
of the text from there on. The place where it ends is moved on by that position, and so are the
positions in what it reports, if there are any. This is also what reading by index reports, which is
given the whole text: the text behind the position makes no difference to it. -/
structure SeesAhead {β : Type} (move : Nat → β → β) (byIndex : Text → Nat → β × Nat)
    (read : Cursor → β × Cursor) : Prop where
  ahead : ∀ s i, ∃ e, (read (.seek (s.drop i) 0)).2 = .seek (s.drop i) e ∧
    read (.seek s i) = (move i (read (.seek (s.drop i) 0)).1, .seek s (i + e))
  indexed : ∀ s i, read (.seek s i) = Prod.map id (.seek s) (byIndex s i)
  unseen : ∀ s i, byIndex s i = Prod.map (move i) (i + ·) (byIndex (s.drop i) 0)

/-- A reader that ends in the same text sees only what lies ahead if it reads the same at a place
moved on. -/
lemma seesAhead_of_shift {β : Type} {nothing : β} {move : Nat → β → β}
    {byIndex : Text → Nat → β × Nat} {read : Cursor → β × Cursor}
    (hadvances : Advances nothing read)
    (hshift : ∀ n k, read (k.shift n) = Prod.map (move n) (shift n) (read k))
    (hindexed : ∀ s i, read (.seek s i) = Prod.map id (.seek s) (byIndex s i)) :
    SeesAhead move byIndex read := by
  have hmoved : ∀ s i, read (.seek s i) =
      Prod.map (move i) (shift i) (read (.seek (s.drop i) 0)) := by
    intro s i
    rw [← hshift, shift_seek, Nat.add_zero]
  refine ⟨fun s i => ?_, hindexed, fun s i => ?_⟩
  · obtain ⟨e, he, -⟩ := hadvances (s.drop i) 0
    exact ⟨e, he, by rw [hmoved, Prod.map, he, shift_seek]⟩
  · have hread := hmoved s i
    rw [hindexed, hindexed, Prod.map_map] at hread
    have hvalue := congrArg Prod.fst hread
    have hend := congrArg (fun r => r.2.pos) hread
    exact Prod.ext hvalue hend

lemma report_shift {α β : Type} {nothing : β} {give : α → β} {read : Cursor → Option (α × Cursor)}
    (h : Movable read) (n : Nat) (k : Cursor) :
    report nothing give read (k.shift n) = Prod.map id (shift n) (report nothing give read k) := by
  unfold report
  rw [h n k]
  rcases read k with _ | ⟨a, k'⟩ <;> rfl

lemma report_seek {α β : Type} {nothing : β} {give : α → β}
    {byIndex : Text → Nat → Option (α × Nat)} {read : Cursor → Option (α × Cursor)}
    (h : Indexed.Agrees byIndex read) (s : Text) (i : Nat) :
    report nothing give read (.seek s i) =
      Prod.map id (.seek s) (Indexed.report nothing give (byIndex s) i) := by
  unfold report Indexed.report
  rw [h s i]
  rcases byIndex s i with _ | ⟨a, j⟩ <;> rfl

/-- A reader that may find nothing, with what it reports. -/
lemma seesAhead_report {α β : Type} {nothing : β} {give : α → β}
    {byIndex : Text → Nat → Option (α × Nat)} {read : Cursor → Option (α × Cursor)}
    (hadvances : Advances nothing (report nothing give read)) (hmovable : Movable read)
    (hagrees : Indexed.Agrees byIndex read) :
    SeesAhead (fun _ => id) (fun s => Indexed.report nothing give (byIndex s))
      (report nothing give read) :=
  seesAhead_of_shift hadvances (report_shift hmovable) (report_seek hagrees)

/-- **Readers see only what lies ahead**: each of them, run at any position of any text or past its
end, reports what it reports at the beginning of the text from there on, only that the position
where it ends and those where terms start are moved on. Reading by index, which could look behind,
reports the same and does not. -/
theorem readers_see_ahead :
    SeesAhead (fun n => List.map (Prod.map (n + ·) id)) Indexed.terms terms ∧
    SeesAhead (fun _ => id) Indexed.literals literals ∧
    SeesAhead (fun _ => id) (fun s => Indexed.report none some (Indexed.expression s))
      (report none some expression) ∧
    SeesAhead (fun _ => id) Indexed.variableList variableList ∧
    SeesAhead (fun _ => id) (fun s => Indexed.report none some (Indexed.varspec s))
      (report none some varspec) ∧
    SeesAhead (fun _ => id) (fun s => Indexed.report [] id (Indexed.varname s))
      (report [] id varname) ∧
    SeesAhead (fun _ => id) (fun s => Indexed.report none some (Indexed.varchar s))
      (report none some varchar) ∧
    SeesAhead (fun _ => id) Indexed.modifier modifier ∧
    SeesAhead (fun _ => id) (fun s => Indexed.report none some (Indexed.cut s))
      (report none some cut) ∧
    SeesAhead (fun _ => id) (fun s => Indexed.report none some (Indexed.maxLength s))
      (report none some maxLength) ∧
    SeesAhead (fun _ => id) (fun s => Indexed.report none some (Indexed.scalar s))
      (report none some Percent.scalar?) := by
  refine ⟨?_, ?_, ?_, ?_, ?_, ?_, ?_, ?_, ?_, ?_, ?_⟩
  · exact seesAhead_of_shift advances_terms terms_shift Indexed.terms_eq
  · exact seesAhead_of_shift advances_literals literals_shift Indexed.literals_eq
  · exact seesAhead_report advances_expression movable_expression Indexed.agrees_expression
  · exact seesAhead_of_shift advances_variableList variableList_shift Indexed.variableList_eq
  · exact seesAhead_report advances_varspec movable_varspec Indexed.agrees_varspec
  · exact seesAhead_report advances_varname movable_varname Indexed.agrees_varname
  · exact seesAhead_report advances_varchar movable_varchar Indexed.agrees_varchar
  · exact seesAhead_of_shift advances_modifier modifier_shift Indexed.modifier_eq
  · exact seesAhead_report advances_cut movable_cut Indexed.agrees_cut
  · exact seesAhead_report advances_maxLength movable_maxLength Indexed.agrees_maxLength
  · exact seesAhead_report advances_scalar movable_scalar Indexed.agrees_scalar

/-- Inside a triplet its percent sign is out of sight. -/
example : literals (.seek (lit "%41\x7b") 1) = (lit "41", .seek (lit "%41\x7b") 3) ∧
    literals (.seek (lit "41\x7b") 0) = (lit "41", .seek (lit "41\x7b") 2) := by decide

end Production

end UriTemplate

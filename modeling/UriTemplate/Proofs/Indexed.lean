import UriTemplate.Proofs.Compilation

/-!
The readers by index. Here a reader is given a whole text and a position of it: it looks at
characters by their index and compares positions with the length of the text, and names and numbers
are cut out of the text between two positions. Nothing keeps it from looking behind. What it gives
is what the reader gives at the place of that position, and it ends where that one ends.
-/

namespace UriTemplate

namespace Cursor

lemma seek_of_lt {s : Text} {i : Nat} (h : i < s.length) :
    seek s i = ⟨i, s[i] :: s.drop (i + 1)⟩ := by
  rw [seek, List.drop_eq_getElem_cons h]

lemma seek_of_not_lt {s : Text} {i : Nat} (h : ¬ i < s.length) : seek s i = ⟨i, []⟩ := by
  rw [seek, List.drop_eq_nil_of_le (by omega)]

/-- The next character is the one at the position. -/
lemma after?_seek (c : CodePoint) (s : Text) (i : Nat) :
    (seek s i).after? c = if s[i]? = some c then some (seek s (i + 1)) else none := by
  by_cases h : i < s.length
  · simp only [seek_of_lt h, after?, List.getElem?_eq_getElem h, Option.some.injEq]
    rfl
  · simp [seek_of_not_lt h, after?, List.getElem?_eq_none (Nat.le_of_not_lt h)]

end Cursor

namespace Indexed

open Cursor

/-! ### Reading by index -/

section

variable {α : Type}

/-- The reading by index gives what the reader gives, at every position of every text and past its
end. -/
def Agrees (byIndex : Text → Nat → Option (α × Nat)) (read : Cursor → Option (α × Cursor)) :
    Prop :=
  ∀ s i, read (.seek s i) = (byIndex s i).map (Prod.map id (.seek s))

namespace Agrees

variable {byIndex : Text → Nat → Option (α × Nat)} {read : Cursor → Option (α × Cursor)}
  {s : Text} {i j : Nat} {a : α}

lemma eq_some (h : Agrees byIndex read) (hi : byIndex s i = some (a, j)) :
    read (.seek s i) = some (a, .seek s j) := by
  rw [h s i, hi]
  rfl

lemma eq_none (h : Agrees byIndex read) (hi : byIndex s i = none) : read (.seek s i) = none := by
  rw [h s i, hi]
  rfl

/-- A reader that leaves less of the text does so by index too. -/
lemma decreases (h : Agrees byIndex read)
    (hlength : ∀ {k k' a}, read k = some (a, k') → k'.rest.length < k.rest.length)
    (hi : byIndex s i = some (a, j)) : s.length - j < s.length - i := by
  have hread := hlength (h.eq_some hi)
  rwa [seek, seek, List.length_drop, List.length_drop] at hread

/-- What is read after a given character is read by index after it. -/
lemma after (h : Agrees byIndex read) (c : CodePoint) :
    Agrees (fun s i => if s[i]? = some c then byIndex s (i + 1) else none) fun k =>
      match k.after? c with
      | some d => read d
      | none => none := by
  intro s i
  simp only [after?_seek]
  split_ifs
  · exact h s (i + 1)
  · rfl

end Agrees

end

/-- What a reading by index reports: what it read and where it ended, or that there is nothing, and
the position where it was. -/
def report {α β : Type} (nothing : β) (give : α → β) (read : Nat → Option (α × Nat)) (i : Nat) :
    β × Nat :=
  match read i with
  | some (a, j) => (give a, j)
  | none => (nothing, i)

/-! ### Names -/

/-- A triplet stands at the position. -/
def isTriplet (s : Text) (i : Nat) : Bool :=
  if h : i + 2 < s.length then Percent.isTriplet s[i] s[i + 1] s[i + 2] else false

/-- Triplets from the position on, as long as their octets call for more. -/
def scalarFrom (s : Text) (q : Utf8.State) (i : Nat) : Option (CodePoint × Nat) :=
  if h : i + 2 < s.length then
    if isTriplet s i then
      match Utf8.step q (Percent.octet s[i + 1] s[i + 2]) with
      | .done c => some (c, i + 3)
      | .next q' => scalarFrom s q' (i + 3)
      | .refused => none
    else none
  else none
termination_by s.length - i

def scalar (s : Text) (i : Nat) : Option (CodePoint × Nat) := scalarFrom s .boundary i

lemma drop_of_lt {s : Text} {i : Nat} (h : i + 2 < s.length) :
    s.drop i = s[i] :: s[i + 1] :: s[i + 2] :: s.drop (i + 3) := by
  rw [List.drop_eq_getElem_cons (show i < s.length by omega),
    List.drop_eq_getElem_cons (show i + 1 < s.length by omega), List.drop_eq_getElem_cons h]

lemma isTriplet_of_lt {s : Text} {i : Nat} (h : i + 2 < s.length) :
    isTriplet s i = Percent.isTriplet s[i] s[i + 1] s[i + 2] := by
  rw [isTriplet, dif_pos h]

lemma lt_of_isTriplet {s : Text} {i : Nat} (h : isTriplet s i = true) : i + 2 < s.length := by
  unfold isTriplet at h
  split_ifs at h
  assumption

lemma scalarFrom_eq (s : Text) (q : Utf8.State) (i : Nat) :
    Percent.scalarFrom q i (s.drop i) = (scalarFrom s q i).map (Prod.map id (.seek s)) := by
  fun_induction scalarFrom s q i with
  | case1 q i h ht c hs =>
    rw [isTriplet_of_lt h] at ht
    rw [drop_of_lt h]
    simp [Percent.scalarFrom, ht, hs, seek]
  | case2 q i h ht q' hs ih =>
    rw [isTriplet_of_lt h] at ht
    rw [← ih, drop_of_lt h]
    simp [Percent.scalarFrom, ht, hs]
  | case3 q i h ht hs =>
    rw [isTriplet_of_lt h] at ht
    rw [drop_of_lt h]
    simp [Percent.scalarFrom, ht, hs]
  | case4 q i h ht =>
    rw [isTriplet_of_lt h] at ht
    rw [drop_of_lt h]
    simp [Percent.scalarFrom, ht]
  | case5 q i h =>
    have hlength := List.length_drop (i := i) (l := s)
    rcases hs : s.drop i with _ | ⟨_, _ | ⟨_, _ | ⟨_, _⟩⟩⟩
    · rfl
    · rfl
    · rfl
    · simp only [hs, List.length_cons] at hlength
      omega

theorem agrees_scalar : Agrees scalar Percent.scalar? :=
  fun s i => scalarFrom_eq s .boundary i

def varchar (s : Text) (i : Nat) : Option (CodePoint × Nat) :=
  if h : i < s.length then
    if CharClass.varchar.admits s[i] then some (s[i], i + 1) else scalar s i
  else none

theorem agrees_varchar : Agrees varchar Production.varchar := by
  intro s i
  unfold varchar
  split_ifs with h hc
  · rw [seek_of_lt h]
    simp [Production.varchar, hc, seek]
  · rw [← agrees_scalar s i, seek_of_lt h]
    simp [Production.varchar, hc]
  · rw [seek_of_not_lt h]
    rfl

def dottedVarchar (s : Text) (i : Nat) : Option (Text × Nat) :=
  match varchar s i with
  | some (c, j) => some ([c], j)
  | none =>
    if s[i]? = some (.ofChar '.') then
      match varchar s (i + 1) with
      | some (c, j) => some (['.', c], j)
      | none => none
    else none

theorem agrees_dottedVarchar : Agrees dottedVarchar Production.dottedVarchar := by
  intro s i
  unfold dottedVarchar Production.dottedVarchar
  rw [agrees_varchar s i, after?_seek]
  rcases varchar s i with _ | ⟨c, j⟩
  · split_ifs
    · simp only [Option.map_none, agrees_varchar s (i + 1)]
      rcases varchar s (i + 1) with _ | ⟨c, j⟩ <;> rfl
    · rfl
  · rfl

def varnameTail (s : Text) (i : Nat) : Text × Nat :=
  match _h : dottedVarchar s i with
  | some (t, j) =>
    let r := varnameTail s j
    (t ++ r.1, r.2)
  | none => ([], i)
termination_by s.length - i
decreasing_by exact agrees_dottedVarchar.decreases Production.length_dottedVarchar _h

lemma varnameTail_eq (s : Text) (i : Nat) :
    Production.varnameTail (.seek s i) = Prod.map id (.seek s) (varnameTail s i) := by
  fun_induction varnameTail s i with
  | case1 i t j h r ih =>
    rw [Production.varnameTail_some (agrees_dottedVarchar.eq_some h), ih]
    rfl
  | case2 i h =>
    rw [Production.varnameTail_none (agrees_dottedVarchar.eq_none h)]
    rfl

def varname (s : Text) (i : Nat) : Option (Text × Nat) :=
  match varchar s i with
  | some (c, j) =>
    let r := varnameTail s j
    some (c :: r.1, r.2)
  | none => none

theorem agrees_varname : Agrees varname Production.varname := by
  intro s i
  unfold varname Production.varname
  rw [agrees_varchar s i]
  rcases varchar s i with _ | ⟨c, j⟩
  · rfl
  · simp only [Option.map_some, Prod.map_apply, varnameTail_eq]
    rfl

/-! ### Modifiers -/

/-- Where the digits of a number that starts at the first position end, of which there are four at
most. -/
def digitsEnd (s : Text) (i e : Nat) : Nat :=
  if h : e < s.length then
    if e - i < 4 ∧ CharClass.digit.admits s[e] then digitsEnd s i (e + 1) else e
  else e
termination_by s.length - e

/-- The number that is written in front of where its digits end. -/
def maxLength (s : Text) (i : Nat) : Option (CutLength × Nat) :=
  if h : i < s.length then
    if 0x31 ≤ s[i].val ∧ s[i].val ≤ 0x39 then
      let e := digitsEnd s i (i + 1)
      let n := Grammar.decimal ((s.take e).drop i)
      if hn : 1 ≤ n ∧ n ≤ 9999 then some (⟨n, hn⟩, e) else none
    else none
  else none

lemma le_digitsEnd (s : Text) (i e : Nat) : e ≤ digitsEnd s i e := by
  fun_induction digitsEnd s i e with
  | case1 e h hc ih => omega
  | case2 => exact Nat.le_refl _
  | case3 => exact Nat.le_refl _

/-- A part of a text begins with the character at its first position. -/
lemma slice_of_lt {s : Text} {i e : Nat} (hi : i < s.length) (h : i < e) :
    (s.take e).drop i = s[i] :: (s.take e).drop (i + 1) := by
  have hlength : i < (s.take e).length := by
    rw [List.length_take]
    omega
  rw [List.drop_eq_getElem_cons hlength, List.getElem_take]

lemma moreDigits_eq (s : Text) {i e : Nat} (h : i ≤ e) (n : Nat) :
    Production.moreDigits (4 - (e - i)) n (.seek s e) =
      (((s.take (digitsEnd s i e)).drop e).foldl (fun n c => 10 * n + (c.val - 0x30)) n,
        .seek s (digitsEnd s i e)) := by
  fun_induction digitsEnd s i e generalizing n with
  | case1 e he hc ih =>
    have hcount : 4 - (e - i) = 4 - (e + 1 - i) + 1 := by omega
    have hle := le_digitsEnd s i (e + 1)
    rw [slice_of_lt he hle, List.foldl_cons, ← ih (by omega), hcount, seek_of_lt he]
    simp only [Production.moreDigits, hc.2, if_true]
    rfl
  | case2 e he hc =>
    rw [List.drop_eq_nil_of_le (List.length_take_le e s), seek_of_lt he]
    rcases hcount : 4 - (e - i) with _ | count
    · rfl
    · have hdigit : ¬ CharClass.digit.admits s[e] = true := fun hd => hc ⟨by omega, hd⟩
      simp [Production.moreDigits, hdigit]
  | case3 e he =>
    rw [List.drop_eq_nil_of_le (List.length_take_le e s), seek_of_not_lt he]
    rcases 4 - (e - i) with _ | count <;> rfl

/-- After a first digit, the number that is read is the one cut out of the text. -/
lemma moreDigits_eq_decimal {s : Text} {i : Nat} (h : i < s.length) :
    Production.moreDigits 3 (s[i].val - 0x30) (.seek s (i + 1)) =
      (Grammar.decimal ((s.take (digitsEnd s i (i + 1))).drop i),
        .seek s (digitsEnd s i (i + 1))) := by
  have hcount : 4 - (i + 1 - i) = 3 := by omega
  have hmore := moreDigits_eq s (Nat.le_add_right i 1) (s[i].val - 0x30)
  rw [hcount] at hmore
  rw [hmore, slice_of_lt h (le_digitsEnd s i (i + 1)), Grammar.decimal, List.foldl_cons,
    Nat.mul_zero, Nat.zero_add]

theorem agrees_maxLength : Agrees maxLength Production.maxLength := by
  intro s i
  unfold maxLength
  split_ifs with h hc
  · have hnumber := moreDigits_eq_decimal h
    -- the check of the number never fails
    have hbounds := Production.moreDigits_bounds 3 (s[i].val - 0x30) (.seek s (i + 1)) 10
      (by omega) (by omega)
    rw [hnumber] at hbounds
    simp only [dif_pos (And.intro hbounds.1 (Nat.le_of_lt_succ hbounds.2)), Option.map_some,
      Prod.map_apply, id_eq]
    rw [seek_of_lt h]
    simp only [Production.maxLength, dif_pos hc, Option.some.injEq, Prod.mk.injEq]
    exact ⟨Subtype.ext (congrArg Prod.fst hnumber), congrArg Prod.snd hnumber⟩
  · rw [seek_of_lt h]
    simp [Production.maxLength, hc]
  · rw [seek_of_not_lt h]
    rfl

def cut (s : Text) (i : Nat) : Option (CutLength × Nat) :=
  if s[i]? = some (.ofChar ':') then maxLength s (i + 1) else none

theorem agrees_cut : Agrees cut Production.cut := agrees_maxLength.after ':'

def modifier (s : Text) (i : Nat) : Modifier × Nat :=
  match cut s i with
  | some (n, j) => (.cut n, j)
  | none => if s[i]? = some (.ofChar '*') then (.explode, i + 1) else (.whole, i)

theorem modifier_eq (s : Text) (i : Nat) :
    Production.modifier (.seek s i) = Prod.map id (.seek s) (modifier s i) := by
  unfold modifier Production.modifier
  rw [agrees_cut s i, after?_seek]
  rcases cut s i with _ | ⟨n, j⟩
  · split_ifs <;> rfl
  · rfl

/-! ### Variables and expressions -/

/-- The name is the part of the text from where the variable starts to where its name ends. -/
def varspec (s : Text) (i : Nat) : Option (Varspec × Nat) :=
  match varname s i with
  | some (decoded, e) =>
    let m := modifier s e
    some (⟨(s.take e).drop i, decoded, m.1⟩, m.2)
  | none => none

theorem agrees_varspec : Agrees varspec Production.varspec := by
  intro s i
  unfold varspec Production.varspec
  rw [agrees_varname s i]
  rcases varname s i with _ | ⟨d, e⟩
  · rfl
  · have hname : (seek s i).rest.take ((seek s e).pos - (seek s i).pos) = (s.take e).drop i := by
      simp only [seek, List.drop_take]
    simp only [Option.map_some, Prod.map_apply, modifier_eq, id_eq, hname]
    rfl

def nextVarspec (s : Text) (i : Nat) : Option (Varspec × Nat) :=
  if s[i]? = some (.ofChar ',') then varspec s (i + 1) else none

theorem agrees_nextVarspec : Agrees nextVarspec Production.nextVarspec := agrees_varspec.after ','

def moreVarspecs (s : Text) (i : Nat) : List Varspec × Nat :=
  match _h : nextVarspec s i with
  | some (v, j) =>
    let r := moreVarspecs s j
    (v :: r.1, r.2)
  | none => ([], i)
termination_by s.length - i
decreasing_by exact agrees_nextVarspec.decreases Production.length_nextVarspec _h

lemma moreVarspecs_eq (s : Text) (i : Nat) :
    Production.moreVarspecs (.seek s i) = Prod.map id (.seek s) (moreVarspecs s i) := by
  fun_induction moreVarspecs s i with
  | case1 i v j h r ih =>
    rw [Production.moreVarspecs_some (agrees_nextVarspec.eq_some h), ih]
    rfl
  | case2 i h =>
    rw [Production.moreVarspecs_none (agrees_nextVarspec.eq_none h)]
    rfl

def variableList (s : Text) (i : Nat) : List Varspec × Nat :=
  match varspec s i with
  | some (v, j) =>
    let r := moreVarspecs s j
    (v :: r.1, r.2)
  | none => ([], i)

theorem variableList_eq (s : Text) (i : Nat) :
    Production.variableList (.seek s i) = Prod.map id (.seek s) (variableList s i) := by
  unfold variableList Production.variableList
  rw [agrees_varspec s i]
  rcases varspec s i with _ | ⟨v, j⟩
  · rfl
  · simp only [Option.map_some, Prod.map_apply, moreVarspecs_eq]
    rfl

def trigger (s : Text) (i : Nat) : Operator × Nat :=
  if h : i < s.length then
    match Operator.ofTrigger? s[i] with
    | some op => (op, i + 1)
    | none => (.simple, i)
  else (.simple, i)

lemma trigger_eq (s : Text) (i : Nat) :
    Production.trigger (.seek s i) = Prod.map id (.seek s) (trigger s i) := by
  unfold trigger
  split_ifs with h
  · rcases ho : Operator.ofTrigger? s[i] with _ | op
    · simp only [Prod.map_apply, id_eq, seek_of_lt h, Production.trigger, ho]
    · simp only [seek_of_lt h, Production.trigger, ho]
      rfl
  · simp only [Prod.map_apply, id_eq, seek_of_not_lt h, Production.trigger]

def expression (s : Text) (i : Nat) : Option (Term × Nat) :=
  if s[i]? = some (.ofChar '{') then
    let t := trigger s (i + 1)
    let vs := variableList s t.2
    if s[vs.2]? = some (.ofChar '}') then some (.expression t.1 vs.1, vs.2 + 1) else none
  else none

theorem agrees_expression : Agrees expression Production.expression := by
  intro s i
  unfold expression Production.expression
  rw [after?_seek]
  split_ifs
  · simp only [trigger_eq, Prod.map_fst, Prod.map_snd, variableList_eq, after?_seek, id_eq]
    split_ifs <;> rfl
  · rfl

/-! ### Terms -/

def literals (s : Text) (i : Nat) : Text × Nat :=
  if h : i < s.length then
    match Production.literalChar? s[i] with
    | some t =>
      let r := literals s (i + 1)
      (t ++ r.1, r.2)
    | none =>
      if isTriplet s i then
        let r := literals s (i + 3)
        ((s.take (i + 3)).drop i ++ r.1, r.2)
      else ([], i)
  else ([], i)
termination_by s.length - i

lemma literalsFrom_eq (s : Text) (i : Nat) :
    Production.literalsFrom i (s.drop i) = Prod.map id (.seek s) (literals s i) := by
  fun_induction literals s i with
  | case1 i h t hc r ih =>
    rw [List.drop_eq_getElem_cons h, Production.literalsFrom.eq_def]
    simp only [hc, ih]
    rfl
  | case2 i h hc ht r ih =>
    have hlt := lt_of_isTriplet ht
    have hslice : (s.take (i + 3)).drop i = [s[i], s[i + 1], s[i + 2]] := by
      rw [slice_of_lt h (by omega), slice_of_lt (show i + 1 < s.length by omega) (by omega),
        slice_of_lt hlt (by omega), List.drop_eq_nil_of_le (List.length_take_le _ s)]
    rw [isTriplet_of_lt hlt] at ht
    rw [drop_of_lt hlt, hslice]
    simp only [Production.literalsFrom, hc, ht, if_true, ih]
    rfl
  | case3 i h hc ht =>
    by_cases hlt : i + 2 < s.length
    · rw [isTriplet_of_lt hlt] at ht
      simp only [Prod.map_apply, id_eq, seek, drop_of_lt hlt, Production.literalsFrom, hc, ht,
        if_false, Bool.false_eq_true]
    · have hlength := List.length_drop (i := i + 1) (l := s)
      rw [Prod.map_apply, seek_of_lt h, List.drop_eq_getElem_cons h]
      rcases hrest : s.drop (i + 1) with _ | ⟨a, _ | ⟨b, r⟩⟩
      · simp [Production.literalsFrom, hc]
      · simp [Production.literalsFrom, hc]
      · rw [hrest, List.length_cons, List.length_cons] at hlength
        omega
  | case4 i h =>
    rw [List.drop_eq_nil_of_le (Nat.le_of_not_lt h), Prod.map_apply, seek_of_not_lt h]
    rfl

theorem literals_eq (s : Text) (i : Nat) :
    Production.literals (.seek s i) = Prod.map id (.seek s) (literals s i) :=
  literalsFrom_eq s i

def literal (s : Text) (i : Nat) : Option (Term × Nat) :=
  let r := literals s i
  if i < r.2 then some (.literal r.1, r.2) else none

theorem agrees_literal : Agrees literal Production.literal := by
  intro s i
  simp only [literal, Production.literal, literals_eq, Prod.map_fst, Prod.map_snd, id_eq]
  change (if i < (literals s i).2 then _ else _) = _
  split_ifs <;> rfl

def term (s : Text) (i : Nat) : Option (Term × Nat) :=
  match literal s i with
  | some r => some r
  | none => expression s i

theorem agrees_term : Agrees term Production.term := by
  intro s i
  unfold term Production.term
  rw [agrees_literal s i]
  rcases literal s i with _ | r
  · exact agrees_expression s i
  · rfl

def terms (s : Text) (i : Nat) : List (Nat × Term) × Nat :=
  match _h : term s i with
  | some (t, j) =>
    let r := terms s j
    ((i, t) :: r.1, r.2)
  | none => ([], i)
termination_by s.length - i
decreasing_by exact agrees_term.decreases Production.length_term _h

theorem terms_eq (s : Text) (i : Nat) :
    Production.terms (.seek s i) = Prod.map id (.seek s) (terms s i) := by
  fun_induction terms s i with
  | case1 i t j h r ih =>
    rw [Production.terms_some (agrees_term.eq_some h), ih]
    rfl
  | case2 i h =>
    rw [Production.terms_none (agrees_term.eq_none h)]
    rfl

end Indexed

end UriTemplate

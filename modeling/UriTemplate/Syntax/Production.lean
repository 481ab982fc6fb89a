import UriTemplate.Syntax.Term

/-!
The grammar's productions as readers. A reader takes the longest match that starts at a place of
the text and gives what it read together with the place after it; where nothing matches, it either
gives none or leaves the place as it was. Every match moves on, so that reading ends.
-/

namespace UriTemplate.Production

/-- A letter, a digit, an underscore, or a character written in triplets. -/
def varchar (k : Cursor) : Option (CodePoint × Cursor) :=
  match k.rest with
  | c :: r => if CharClass.varchar.admits c then some (c, ⟨k.pos + 1, r⟩) else Percent.scalar? k
  | [] => none

theorem length_varchar {k k' : Cursor} {c : CodePoint} (h : varchar k = some (c, k')) :
    k'.rest.length < k.rest.length := by
  unfold varchar at h
  split at h
  · rename_i hk
    split at h
    · cases h; simp [hk]
    · exact Percent.length_scalar? h
  · cases h

/-- One more character of a name, with a dot before it or without. A dot that no character follows
is left. -/
def dottedVarchar (k : Cursor) : Option (Text × Cursor) :=
  match varchar k with
  | some (c, k') => some ([c], k')
  | none =>
    match k.after? '.' with
    | none => none
    | some d =>
      match varchar d with
      | some (c, k') => some (['.', c], k')
      | none => none

theorem length_dottedVarchar {k k' : Cursor} {t : Text} (h : dottedVarchar k = some (t, k')) :
    k'.rest.length < k.rest.length := by
  unfold dottedVarchar at h
  split at h
  · rename_i hv
    cases h
    exact length_varchar hv
  · split at h
    · cases h
    · rename_i hd
      split at h
      · rename_i hv
        cases h
        exact Nat.lt_trans (length_varchar hv) (Cursor.length_after? hd)
      · cases h

/-- The rest of a name after its first character, decoded. -/
def varnameTail (k : Cursor) : Text × Cursor :=
  match _h : dottedVarchar k with
  | some (t, k') =>
    let r := varnameTail k'
    (t ++ r.1, r.2)
  | none => ([], k)
termination_by k.rest.length
decreasing_by exact length_dottedVarchar _h

/-- The name of a variable, decoded. -/
def varname (k : Cursor) : Option (Text × Cursor) :=
  match varchar k with
  | some (c, k') =>
    let r := varnameTail k'
    some (c :: r.1, r.2)
  | none => none

theorem length_varnameTail (k : Cursor) : (varnameTail k).2.rest.length ≤ k.rest.length := by
  fun_induction varnameTail k with
  | case1 k t k' h r ih => exact Nat.le_trans ih (Nat.le_of_lt (length_dottedVarchar h))
  | case2 => exact Nat.le_refl _

theorem length_varname {k k' : Cursor} {t : Text} (h : varname k = some (t, k')) :
    k'.rest.length < k.rest.length := by
  unfold varname at h
  split at h
  · rename_i hv
    cases h
    exact Nat.lt_of_le_of_lt (length_varnameTail _) (length_varchar hv)
  · cases h

/-! ### Modifiers -/

/-- Up to so many more digits of a decimal number, whose value so far is given. -/
def moreDigits (count n : Nat) (k : Cursor) : Nat × Cursor :=
  match count, k.rest with
  | more + 1, c :: r =>
    if CharClass.digit.admits c then moreDigits more (10 * n + (c.val - 0x30)) ⟨k.pos + 1, r⟩
    else (n, k)
  | _, _ => (n, k)

theorem moreDigits_bounds (count n : Nat) (k : Cursor) (bound : Nat) (h1 : 1 ≤ n) (h2 : n < bound) :
    1 ≤ (moreDigits count n k).1 ∧ (moreDigits count n k).1 < bound * Nat.pow 10 count := by
  fun_induction moreDigits count n k generalizing bound with
  | case1 n k more c r hk hd ih =>
    have hc : c.val - 0x30 ≤ 9 := by
      simp [CharClass.admits, CharClass.holds, CharClass.isDigit, CharClass.between] at hd
      omega
    have := ih (bound * 10) (by omega) (by omega)
    have hpow : bound * Nat.pow 10 (more + 1) = bound * 10 * Nat.pow 10 more := by
      change bound * (Nat.pow 10 more * 10) = _
      rw [Nat.mul_comm (Nat.pow 10 more), Nat.mul_assoc]
    rwa [hpow]
  | case2 n k more c r hk hd =>
    exact ⟨h1, Nat.lt_of_lt_of_le h2 (Nat.le_mul_of_pos_right _ (Nat.pow_pos (by decide)))⟩
  | case3 n k count hk =>
    exact ⟨h1, Nat.lt_of_lt_of_le h2 (Nat.le_mul_of_pos_right _ (Nat.pow_pos (by decide)))⟩

/-- A number of at most four digits without a leading zero. -/
def maxLength (k : Cursor) : Option (CutLength × Cursor) :=
  match k.rest with
  | c :: r =>
    if h : 0x31 ≤ c.val ∧ c.val ≤ 0x39 then
      let d := moreDigits 3 (c.val - 0x30) ⟨k.pos + 1, r⟩
      have b := moreDigits_bounds 3 (c.val - 0x30) ⟨k.pos + 1, r⟩ 10 (by omega) (by omega)
      some (⟨d.1, b.1, Nat.le_of_lt_succ b.2⟩, d.2)
    else none
  | [] => none

/-- A colon and the length of a cut. A colon that no length follows is left. -/
def cut (k : Cursor) : Option (CutLength × Cursor) :=
  match k.after? ':' with
  | some d => maxLength d
  | none => none

/-- The modifier after a name. -/
def modifier (k : Cursor) : Modifier × Cursor :=
  match cut k with
  | some (n, k') => (.cut n, k')
  | none =>
    match k.after? '*' with
    | some k' => (.explode, k')
    | none => (.whole, k)

theorem length_moreDigits (count n : Nat) (k : Cursor) :
    (moreDigits count n k).2.rest.length ≤ k.rest.length := by
  fun_induction moreDigits count n k with
  | case1 n k more c r hk _ ih => simp [hk] at ih ⊢; omega
  | case2 => exact Nat.le_refl _
  | case3 => exact Nat.le_refl _

theorem length_maxLength {k k' : Cursor} {n : CutLength} (h : maxLength k = some (n, k')) :
    k'.rest.length < k.rest.length := by
  unfold maxLength at h
  split at h
  · rename_i c r hk
    split at h
    · cases h
      have := length_moreDigits 3 (c.val - 0x30) ⟨k.pos + 1, r⟩
      simp [hk] at this ⊢
      omega
    · cases h
  · cases h

theorem length_cut {k k' : Cursor} {n : CutLength} (h : cut k = some (n, k')) :
    k'.rest.length < k.rest.length := by
  unfold cut at h
  split at h
  · rename_i hd
    exact Nat.lt_trans (length_maxLength h) (Cursor.length_after? hd)
  · cases h

theorem length_modifier (k : Cursor) : (modifier k).2.rest.length ≤ k.rest.length := by
  unfold modifier
  split
  · rename_i h
    exact Nat.le_of_lt (length_cut h)
  · split
    · rename_i h
      exact Nat.le_of_lt (Cursor.length_after? h)
    · exact Nat.le_refl _

/-! ### Expressions -/

/-- A variable with its modifier. -/
def varspec (k : Cursor) : Option (Varspec × Cursor) :=
  match varname k with
  | some (decoded, e) =>
    let m := modifier e
    some (⟨k.rest.take (e.pos - k.pos), decoded, m.1⟩, m.2)
  | none => none

theorem length_varspec {k k' : Cursor} {v : Varspec} (h : varspec k = some (v, k')) :
    k'.rest.length < k.rest.length := by
  unfold varspec at h
  split at h
  · rename_i hn
    cases h
    exact Nat.lt_of_le_of_lt (length_modifier _) (length_varname hn)
  · cases h

/-- A comma and one more variable. A comma that no variable follows is left. -/
def nextVarspec (k : Cursor) : Option (Varspec × Cursor) :=
  match k.after? ',' with
  | some d => varspec d
  | none => none

theorem length_nextVarspec {k k' : Cursor} {v : Varspec} (h : nextVarspec k = some (v, k')) :
    k'.rest.length < k.rest.length := by
  unfold nextVarspec at h
  split at h
  · rename_i hd
    exact Nat.lt_trans (length_varspec h) (Cursor.length_after? hd)
  · cases h

/-- The variables after the first one. -/
def moreVarspecs (k : Cursor) : List Varspec × Cursor :=
  match _h : nextVarspec k with
  | some (v, k') =>
    let r := moreVarspecs k'
    (v :: r.1, r.2)
  | none => ([], k)
termination_by k.rest.length
decreasing_by exact length_nextVarspec _h

/-- The variables of an expression, of which there may be none. -/
def variableList (k : Cursor) : List Varspec × Cursor :=
  match varspec k with
  | some (v, k') =>
    let r := moreVarspecs k'
    (v :: r.1, r.2)
  | none => ([], k)

theorem length_moreVarspecs (k : Cursor) : (moreVarspecs k).2.rest.length ≤ k.rest.length := by
  fun_induction moreVarspecs k with
  | case1 k v k' h r ih => exact Nat.le_trans ih (Nat.le_of_lt (length_nextVarspec h))
  | case2 => exact Nat.le_refl _

theorem length_variableList (k : Cursor) : (variableList k).2.rest.length ≤ k.rest.length := by
  unfold variableList
  split
  · rename_i h
    exact Nat.le_trans (length_moreVarspecs _) (Nat.le_of_lt (length_varspec h))
  · exact Nat.le_refl _

/-- The operator that opens an expression's inside: the simple one where no trigger stands. -/
def trigger (k : Cursor) : Operator × Cursor :=
  match k.rest with
  | c :: r =>
    match Operator.ofTrigger? c with
    | some op => (op, ⟨k.pos + 1, r⟩)
    | none => (.simple, k)
  | [] => (.simple, k)

theorem length_trigger (k : Cursor) : (trigger k).2.rest.length ≤ k.rest.length := by
  unfold trigger
  split
  · rename_i hk
    split
    · simp [hk]
    · exact Nat.le_refl _
  · exact Nat.le_refl _

/-- An expression in braces. -/
def expression (k : Cursor) : Option (Term × Cursor) :=
  match k.after? '{' with
  | none => none
  | some d =>
    let t := trigger d
    let vs := variableList t.2
    match vs.2.after? '}' with
    | some k' => some (.expression t.1 vs.1, k')
    | none => none

theorem length_expression {k k' : Cursor} {t : Term} (h : expression k = some (t, k')) :
    k'.rest.length < k.rest.length := by
  unfold expression at h
  split at h
  · cases h
  · rename_i d hd
    dsimp only at h
    split at h
    · rename_i he
      cases h
      have h1 := Cursor.length_after? hd
      have h2 := Cursor.length_after? he
      have h3 := length_variableList (trigger d).2
      have h4 := length_trigger d
      omega
    · cases h

/-! ### Literals -/

/-- What a character of a literal gives: itself, or its triplets if it is outside ASCII. -/
def literalChar? (c : CodePoint) : Option Text :=
  if CharClass.literal.admits c then some [c]
  else if CharClass.ucschar.admits c || CharClass.iprivate.admits c then some (Percent.escape c)
  else none

/-- The longest run of literal characters and triplets, which are copied. -/
def literalsFrom (i : Nat) : Text → Text × Cursor
  | [] => ([], ⟨i, []⟩)
  | c :: s =>
    match literalChar? c with
    | some t =>
      let r := literalsFrom (i + 1) s
      (t ++ r.1, r.2)
    | none =>
      match s with
      | a :: b :: s' =>
        if Percent.isTriplet c a b then
          let r := literalsFrom (i + 3) s'
          (c :: a :: b :: r.1, r.2)
        else ([], ⟨i, c :: s⟩)
      | _ => ([], ⟨i, c :: s⟩)

def literals (k : Cursor) : Text × Cursor := literalsFrom k.pos k.rest

/-- The run and what is left after it make up the text. -/
theorem pos_literalsFrom (i : Nat) (s : Text) :
    (literalsFrom i s).2.pos + (literalsFrom i s).2.rest.length = i + s.length := by
  fun_induction literalsFrom i s with
  | case1 => rfl
  | case2 i c s t _ r ih => simp only [r, List.length_cons] at ih ⊢; omega
  | case3 i c _ a b s' _ r ih => simp only [r, List.length_cons] at ih ⊢; omega
  | case4 => rfl
  | case5 => rfl

/-- A literal, unless its run is empty. -/
def literal (k : Cursor) : Option (Term × Cursor) :=
  let r := literals k
  if k.pos < r.2.pos then some (.literal r.1, r.2) else none

/-! ### Templates -/

def term (k : Cursor) : Option (Term × Cursor) :=
  match literal k with
  | some r => some r
  | none => expression k

theorem length_term {k k' : Cursor} {t : Term} (h : term k = some (t, k')) :
    k'.rest.length < k.rest.length := by
  unfold term at h
  split at h
  · rename_i hl
    cases h
    unfold literal at hl
    dsimp only at hl
    split at hl
    · cases hl
      have := pos_literalsFrom k.pos k.rest
      unfold literals at *
      omega
    · cases hl
  · exact length_expression h

/-- The terms ahead, each with the position where it starts. -/
def terms (k : Cursor) : List (Nat × Term) × Cursor :=
  match _h : term k with
  | some (t, k') =>
    let r := terms k'
    ((k.pos, t) :: r.1, r.2)
  | none => ([], k)
termination_by k.rest.length
decreasing_by exact length_term _h

end UriTemplate.Production

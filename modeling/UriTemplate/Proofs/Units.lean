import UriTemplate.Proofs.Percent
import UriTemplate.Expansion

/-!
Units and what is put together from them. Every unit is a name and a value joined by the operator,
or members with commas between them, and each of these parts is spelled with allowed characters.
Units put together grow at the end, and where no unit has a delimiter they are found again between
the delimiters.
-/

namespace UriTemplate

/-! ### Splitting -/

namespace Text

lemma pieces_cons_of_ne {sep c : CodePoint} (h : c ≠ sep) {s p : Text} {ps : List Text}
    (hs : pieces sep s = p :: ps) : pieces sep (c :: s) = (c :: p) :: ps := by
  rw [pieces, if_neg h, hs]

lemma pieces_of_not_mem {sep : CodePoint} {s : Text} (h : sep ∉ s) : pieces sep s = [s] := by
  induction s with
  | nil => rfl
  | cons c s ih =>
    rw [List.mem_cons, not_or] at h
    exact pieces_cons_of_ne (Ne.symm h.1) (ih h.2)

lemma pieces_append {sep : CodePoint} {s : Text} (h : sep ∉ s) (t : Text) :
    pieces sep (s ++ sep :: t) = s :: pieces sep t := by
  induction s with
  | nil => rw [List.nil_append, pieces, if_pos rfl]
  | cons c s ih =>
    rw [List.mem_cons, not_or] at h
    exact pieces_cons_of_ne (Ne.symm h.1) (ih h.2)

/-- Texts with separators between them are found again. -/
theorem pieces_intercalate {sep : CodePoint} {ts : List Text} (hne : ts ≠ [])
    (h : ∀ t ∈ ts, sep ∉ t) : pieces sep ([sep].intercalate ts) = ts := by
  induction ts with
  | nil => exact absurd rfl hne
  | cons t ts ih =>
    have ht := h t (by simp)
    rcases ts with _ | ⟨u, ts⟩
    · rw [List.intercalate_singleton, pieces_of_not_mem ht]
    · rw [List.intercalate_cons_cons, List.append_assoc, List.singleton_append, pieces_append ht,
        ih (by simp) fun u hu => h u (List.mem_cons_of_mem _ hu)]

lemma cutAt_append {sep : CodePoint} {s : Text} (h : sep ∉ s) (t : Text) :
    cutAt sep (s ++ sep :: t) = (s, t) := by
  induction s with
  | nil => simp [cutAt]
  | cons c s ih =>
    rw [List.mem_cons, not_or] at h
    simp [cutAt, Ne.symm h.1, ih h.2]

lemma cutAt_of_not_mem {sep : CodePoint} {s : Text} (h : sep ∉ s) : cutAt sep s = (s, []) := by
  induction s with
  | nil => rfl
  | cons c s ih =>
    rw [List.mem_cons, not_or] at h
    simp [cutAt, Ne.symm h.1, ih h.2]

end Text

/-! ### Putting units together -/

lemma intercalate_append {sep : Text} {us vs : List Text} (hu : us ≠ []) (hv : vs ≠ []) :
    sep.intercalate (us ++ vs) = sep.intercalate us ++ sep ++ sep.intercalate vs := by
  induction us with
  | nil => exact absurd rfl hu
  | cons u us ih =>
    rcases us with _ | ⟨u', us⟩
    · rw [List.singleton_append, List.intercalate_cons_of_ne_nil hv, List.intercalate_singleton]
    · have h := ih (by simp)
      rw [List.cons_append] at h
      rw [List.cons_append, List.cons_append, List.intercalate_cons_cons, h,
        List.intercalate_cons_cons]
      simp only [List.append_assoc]

namespace Operator

lemma assemble_nil (op : Operator) : op.assemble [] = [] := rfl

lemma assemble_of_ne_nil (op : Operator) {us : List Text} (h : us ≠ []) :
    op.assemble us = op.style.leader ++ op.style.delimiter.intercalate us := by
  unfold assemble
  rw [if_neg (by simpa using h)]

/-- **More units** follow the leader if they are the first ones, else a delimiter. -/
theorem assemble_append (op : Operator) (us : List Text) {vs : List Text} (h : vs ≠ []) :
    op.assemble (us ++ vs) = op.assemble us ++
      ((if us.isEmpty then op.style.leader else op.style.delimiter) ++
        op.style.delimiter.intercalate vs) := by
  rw [assemble_of_ne_nil op (by simp [h])]
  rcases us with _ | ⟨u, us⟩
  · rfl
  · rw [assemble_of_ne_nil op (by simp), intercalate_append (by simp) h]
    simp

/-! ### Joining -/

/-- A unit is its value, or its name and an empty value, or a pair. -/
lemma join_cases (op : Operator) (entry : Bool) (name value : Text) :
    (op.style.joining = .bare ∧ entry = false ∧ op.join entry name value = value) ∨
      (op.style.joining = .pairedUnlessEmpty ∧ entry = false ∧ value = [] ∧
        op.join entry name value = name) ∨
      op.join entry name value = pair name value := by
  unfold join
  rcases op.style.joining with _ | _ | _ <;> rcases entry with _ | _ <;>
    rcases value with _ | ⟨c, value⟩ <;> simp

variable {allowed : CodePoint → Bool}

lemma spelled_join (op : Operator) (heq : allowed '=' = true) {name value : Text}
    (hn : Percent.Spelled allowed name) (hv : Percent.Spelled allowed value) (entry : Bool) :
    Percent.Spelled allowed (op.join entry name value) := by
  rcases op.join_cases entry name value with ⟨-, -, h⟩ | ⟨-, -, -, h⟩ | h <;> rw [h]
  · exact hv
  · exact hn
  · exact hn.append ⟨.inl heq, hv⟩

lemma count_join (op : Operator) {name value : Text} (hn : .ofChar '=' ∉ name)
    (hv : .ofChar '=' ∉ value) (entry : Bool) :
    (op.join entry name value).count (.ofChar '=') ≤ 1 := by
  rw [← List.count_eq_zero] at hn hv
  rcases op.join_cases entry name value with ⟨-, -, h⟩ | ⟨-, -, -, h⟩ | h <;> rw [h]
  · omega
  · omega
  · rw [pair, List.count_append, List.count_cons_self, hn, hv]

/-- Whatever the operator, hexadecimal digits stand for themselves. -/
lemma allowed_of_hexDigit (op : Operator) {c : CodePoint}
    (h : CharClass.hexDigit.admits c = true) : op.style.allowed.admits c = true := by
  have hu := CharClass.unreserved_of_hexDigit h
  cases op <;> first
    | exact hu
    | exact CharClass.unreservedOrReserved_of_unreserved hu

lemma allowed_mono (op : Operator) {c : CodePoint} (h : op.style.allowed.admits c = true) :
    CharClass.unreservedOrReserved.admits c = true := by
  cases op <;> first
    | exact h
    | exact CharClass.unreservedOrReserved_of_unreserved h

lemma spelled_encodeName (op : Operator) (t : Text) :
    Percent.Spelled CharClass.unreserved.admits (op.encodeName t) :=
  Percent.spelled_encode (fun _ => CharClass.unreserved_of_hexDigit) false t

lemma spelled_encodeValue (op : Operator) (t : Text) :
    Percent.Spelled op.style.allowed.admits (op.encodeValue t) :=
  Percent.spelled_encode (fun _ => op.allowed_of_hexDigit) op.style.keepsTriplets t

end Operator

/-! ### The units of a variable -/

/-- What a modifier leaves of a text. -/
def Modifier.trim : Modifier → Text → Text
  | cut n, t => t.take n.val
  | _, t => t

namespace Varspec

/-- The members of a value are put into one unit. -/
def merges (v : Varspec) : Value → Bool
  | .list _ | .map _ => !v.modifier.explodes
  | _ => false

lemma units_scalar (op : Operator) (v : Varspec) (t : Text) :
    v.units op (.scalar t) = .ok [unit op v.decoded (v.modifier.trim t)] := by
  rcases v with ⟨n, d, _ | m | _⟩ <;> rfl

lemma units_list {op : Operator} {v : Varspec} {ts : List Text} (h : v.modifier.cut? = none) :
    v.units op (.list ts) = .ok (if v.modifier.explodes then ts.map (unit op v.decoded)
      else if ts.isEmpty then []
      else [op.join false (op.encodeName v.decoded) (commaJoined op ts)]) := by
  rcases v with ⟨n, d, _ | m | _⟩
  · rfl
  · cases h
  · rfl

/-- The names and values of the units that have one of each. -/
def parts (v : Varspec) : Value → List (Text × Text)
  | .undefined => []
  | .scalar t => [(v.decoded, v.modifier.trim t)]
  | .list ts => ts.map fun t => (v.decoded, t)
  | .map es => es

/-- The value is a map. -/
def isEntries : Value → Bool
  | .map _ => true
  | _ => false

/-- **Units that are not merged**: a name joined to a value each. -/
theorem units_of_not_merges {op : Operator} {v : Varspec} {x : Value} {us : List Text}
    (h : v.units op x = .ok us) (hm : v.merges x = false) :
    us = (v.parts x).map fun e =>
      op.join (isEntries x) (op.encodeName e.1) (op.encodeValue e.2) := by
  obtain ⟨n, d, m⟩ := v
  rcases x with _ | t | ts | es
  · cases h
    rfl
  · rw [units_scalar] at h
    cases h
    rfl
  · rcases m with _ | m | _
    · cases hm
    · cases h
    · cases h
      rw [parts, List.map_map]
      rfl
  · rcases m with _ | m | _
    · cases hm
    · cases h
    · cases h
      rfl

/-- **Units that are merged**: at most one, a name joined to members with commas between them. -/
theorem units_of_merges {op : Operator} {v : Varspec} {x : Value} {us : List Text}
    (h : v.units op x = .ok us) (hm : v.merges x = true) :
    us = [] ∨ ∃ name ts, us = [op.join false (op.encodeName name) (commaJoined op ts)] := by
  obtain ⟨n, d, m⟩ := v
  rcases x with _ | t | ts | es
  · cases hm
  · cases hm
  · rcases m with _ | m | _
    · simp only [units, Except.ok.injEq] at h
      split_ifs at h
      · exact .inl h.symm
      · exact .inr ⟨d, ts, h.symm⟩
    · cases h
    · cases hm
  · rcases m with _ | m | _
    · simp only [units, Except.ok.injEq] at h
      split_ifs at h
      · exact .inl h.symm
      · exact .inr ⟨n, _, h.symm⟩
    · cases h
    · cases hm

/-- Each unit is a name joined to a value, or to members with commas between them. -/
lemma mem_units {op : Operator} {v : Varspec} {x : Value} {us : List Text}
    (h : v.units op x = .ok us) {u : Text} (hu : u ∈ us) :
    (∃ entry name value, u = op.join entry (op.encodeName name) (op.encodeValue value)) ∨
      v.merges x = true ∧
        ∃ name ts, u = op.join false (op.encodeName name) (commaJoined op ts) := by
  by_cases hm : v.merges x = true
  · rcases units_of_merges h hm with rfl | ⟨name, ts, rfl⟩
    · cases hu
    · rw [List.mem_singleton] at hu
      exact .inr ⟨hm, name, ts, hu⟩
  · rw [Bool.not_eq_true] at hm
    rw [units_of_not_merges h hm] at hu
    obtain ⟨e, -, rfl⟩ := List.mem_map.mp hu
    exact .inl ⟨_, e.1, e.2, rfl⟩

lemma spelled_commaJoined (op : Operator) {allowed : CodePoint → Bool}
    (hv : ∀ c, op.style.allowed.admits c = true → allowed c = true) (hc : allowed ',' = true)
    (ts : List Text) : Percent.Spelled allowed (commaJoined op ts) := by
  refine Percent.Spelled.intercalate (Percent.spelled_singleton hc) fun t ht => ?_
  obtain ⟨t, -, rfl⟩ := List.mem_map.mp ht
  exact (op.spelled_encodeValue t).mono hv

/-- **What units are spelled with**: unreserved characters, those that the operator allows in
values, an equals sign, and commas where members are put into one unit. -/
theorem spelled_units {op : Operator} {v : Varspec} {x : Value} {us : List Text}
    (h : v.units op x = .ok us) {allowed : CodePoint → Bool}
    (hn : ∀ c, CharClass.unreserved.admits c = true → allowed c = true)
    (hv : ∀ c, op.style.allowed.admits c = true → allowed c = true) (heq : allowed '=' = true)
    (hc : v.merges x = true → allowed ',' = true) {u : Text} (hu : u ∈ us) :
    Percent.Spelled allowed u := by
  rcases mem_units h hu with ⟨entry, name, value, rfl⟩ | ⟨hm, name, ts, rfl⟩
  · have hname := (op.spelled_encodeName name).mono hn
    exact op.spelled_join heq hname ((op.spelled_encodeValue value).mono hv) entry
  · have hname := (op.spelled_encodeName name).mono hn
    exact op.spelled_join heq hname (spelled_commaJoined op hv (hc hm) ts) false

end Varspec

end UriTemplate

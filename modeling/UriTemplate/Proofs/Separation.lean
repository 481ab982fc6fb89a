import UriTemplate.Proofs.Evaluation
import UriTemplate.Proofs.Units

/-!
Values make no structure. The operators for path segments, path parameters and queries encode all
but unreserved characters, so neither their delimiter nor an equals sign comes from a name or a
value. Splitting what an expression gives at its delimiter finds the units again, and splitting a
unit at its equals sign and decoding both sides finds what it was written from.
-/

namespace UriTemplate

open Percent

/-- The operators whose units can be told apart, whatever their values are. -/
def Operator.separating : List Operator := [.pathSegment, .pathParam, .queryForm, .queryContinuation]

/-- A unit tells a name and a value: both on the two sides of its only equals sign, or, where there
is none, the value of a path segment, or the name of a path parameter without a value. -/
inductive ReadsBack (op : Operator) : Text → Text × Text → Prop where
  | pair {a b : Text} {e : Text × Text} (ha : .ofChar '=' ∉ a) (hb : .ofChar '=' ∉ b)
    (hn : decode? a = some e.1) (hv : decode? b = some e.2) :
    ReadsBack op (a ++ .ofChar '=' :: b) e
  | value {u : Text} {e : Text × Text} (ho : op = .pathSegment) (hu : .ofChar '=' ∉ u)
    (hv : decode? u = some e.2) : ReadsBack op u e
  | name {u : Text} {e : Text × Text} (ho : op = .pathParam) (hu : .ofChar '=' ∉ u)
    (hn : decode? u = some e.1) (hv : e.2 = []) : ReadsBack op u e

/-- The characters of a unit besides triplets. -/
def unitChars (v : Varspec) (x : Value) (c : CodePoint) : Bool :=
  CharClass.unreserved.admits c || c = '=' || (v.merges x && c = ',')

/-- The units of a variable for a value, none of whose characters come from the value unencoded. -/
structure Sealed (op : Operator) (v : Varspec) (x : Value) (us : List Text) : Prop where
  written : v.units op x = .ok us
  equals : ∀ u ∈ us, u.count (.ofChar '=') ≤ 1
  spelled : ∀ u ∈ us, Spelled (unitChars v x) u
  reads : v.merges x = false → List.Forall₂ (fun u e =>
    (∀ c ∈ e.1 ++ e.2, c.isSurrogate = false) → ReadsBack op u e) us (v.parts x)

/-- What a separating operator fixes: one character each to lead and to delimit, and values encoded
but for unreserved characters, without regard to triplets. -/
structure Separates (op : Operator) (c d : CodePoint) : Prop where
  leader : op.style.leader = [c]
  delimiter : op.style.delimiter = [d]
  allowed : op.style.allowed = .unreserved
  keepsTriplets : op.style.keepsTriplets = false
  not_allowed : CharClass.unreserved.admits d = false
  not_mark : d ≠ '%' ∧ d ≠ '=' ∧ d ≠ ','
  bare : op.style.joining = .bare → op = .pathSegment
  named : op.style.joining = .pairedUnlessEmpty → op = .pathParam

lemma exists_separates {op : Operator} (h : op ∈ Operator.separating) :
    ∃ c d, Separates op c d := by
  simp only [Operator.separating, List.mem_cons, List.not_mem_nil, or_false] at h
  rcases h with rfl | rfl | rfl | rfl
  · exact ⟨'/', '/', by constructor <;> decide⟩
  · exact ⟨';', ';', by constructor <;> decide⟩
  · exact ⟨'?', '&', by constructor <;> decide⟩
  · exact ⟨'&', '&', by constructor <;> decide⟩

lemma equals_ne_percent : CodePoint.ofChar '=' ≠ '%' := by decide

lemma equals_not_mem_encodeName (op : Operator) (t : Text) : .ofChar '=' ∉ op.encodeName t :=
  (op.spelled_encodeName t).not_mem CharClass.unreserved_equals equals_ne_percent

namespace Separates

variable {op : Operator} {c d : CodePoint} (hs : Separates op c d)
include hs

lemma equals_not_mem_encodeValue (t : Text) : .ofChar '=' ∉ op.encodeValue t := by
  have ht := op.spelled_encodeValue t
  rw [hs.allowed] at ht
  exact ht.not_mem CharClass.unreserved_equals equals_ne_percent

lemma equals_not_mem_commaJoined (ts : List Text) : .ofChar '=' ∉ Varspec.commaJoined op ts := by
  have hv : ∀ c, op.style.allowed.admits c = true →
      (CharClass.unreserved.admits c || decide (c = ',')) = true := by
    intro c hc
    rw [hs.allowed] at hc
    rw [hc, Bool.true_or]
  have hj := Varspec.spelled_commaJoined op hv rfl ts
  exact hj.not_mem rfl equals_ne_percent

lemma decode?_encodeValue {t : Text} (h : ∀ c ∈ t, c.isSurrogate = false) :
    decode? (op.encodeValue t) = some t := by
  rw [Operator.encodeValue, hs.keepsTriplets, hs.allowed]
  exact decode?_encode CharClass.unreserved_percent h

/-- **A unit that is not merged** is read back. -/
theorem readsBack {name value : Text} (hn : ∀ c ∈ name, c.isSurrogate = false)
    (hv : ∀ c ∈ value, c.isSurrogate = false) (entry : Bool) :
    ReadsBack op (op.join entry (op.encodeName name) (op.encodeValue value)) (name, value) := by
  have hname : decode? (op.encodeName name) = some name :=
    decode?_encode CharClass.unreserved_percent hn
  have hvalue := hs.decode?_encodeValue hv
  have hne := equals_not_mem_encodeName op name
  have hve := hs.equals_not_mem_encodeValue value
  rcases op.join_cases entry (op.encodeName name) (op.encodeValue value) with
    ⟨hj, -, h⟩ | ⟨hj, -, he, h⟩ | h <;> rw [h]
  · exact .value (hs.bare hj) hve hvalue
  · -- an encoded value is empty only if there is nothing to decode
    have hempty : value = [] := Percent.encode_eq_nil.mp he
    exact .name (hs.named hj) hne hname hempty
  · exact .pair hne hve hname hvalue

lemma count_units {v : Varspec} {x : Value} {us : List Text} (h : v.units op x = .ok us)
    {u : Text} (hu : u ∈ us) : u.count (.ofChar '=') ≤ 1 := by
  rcases Varspec.mem_units h hu with ⟨entry, name, value, rfl⟩ | ⟨-, name, ts, rfl⟩
  · have hv := hs.equals_not_mem_encodeValue value
    exact op.count_join (equals_not_mem_encodeName op name) hv entry
  · have hv := hs.equals_not_mem_commaJoined ts
    exact op.count_join (equals_not_mem_encodeName op name) hv false

lemma spelled_units {v : Varspec} {x : Value} {us : List Text} (h : v.units op x = .ok us)
    {u : Text} (hu : u ∈ us) : Spelled (unitChars v x) u := by
  have hn : ∀ c, CharClass.unreserved.admits c = true → unitChars v x c = true := by
    intro c hc
    simp [unitChars, hc]
  refine Varspec.spelled_units h hn ?_ (by simp [unitChars]) ?_ hu
  · intro c hc
    rw [hs.allowed] at hc
    exact hn c hc
  · intro hm
    simp [unitChars, hm]

/-- **The units of a variable** keep their value inside. -/
theorem sealed {v : Varspec} {x : Value} {us : List Text} (h : v.units op x = .ok us) :
    Sealed op v x us := by
  refine ⟨h, fun u => hs.count_units h, fun u => hs.spelled_units h, ?_⟩
  intro hm
  rw [Varspec.units_of_not_merges h hm, List.forall₂_map_left_iff, List.forall₂_same]
  intro e _ he
  refine hs.readsBack (fun c hc => he c ?_) (fun c hc => he c ?_) _
  · exact List.mem_append_left _ hc
  · exact List.mem_append_right _ hc

lemma delimiter_not_mem {v : Varspec} {x : Value} {us : List Text} (h : v.units op x = .ok us)
    {u : Text} (hu : u ∈ us) : d ∉ u := by
  obtain ⟨hp, he, hc⟩ := hs.not_mark
  exact (hs.spelled_units h hu).not_mem (by simp [unitChars, hs.not_allowed, he, hc]) hp

/-- Units that are put together are the pieces after the leader. -/
theorem pieces_assemble {us : List Text} (hne : us ≠ []) (h : ∀ u ∈ us, d ∉ u) :
    ∃ s, op.assemble us = c :: s ∧ Text.pieces d s = us := by
  refine ⟨[d].intercalate us, ?_, Text.pieces_intercalate hne h⟩
  rw [op.assemble_of_ne_nil hne, hs.leader, hs.delimiter, List.singleton_append]

end Separates

namespace Expansion

/-- **No value makes structure**: what an expression with a separating operator gives is its leader
and units that its delimiter tells apart, and these are the units of its variables, in order, for
the values that they were answered with. -/
theorem expression_separates {lookup : Lookup} {o : Options} {op : Operator}
    {vars : List Varspec} {t : Text} (hop : op ∈ Operator.separating)
    (h : (run (expression lookup o op vars)).result = .ok t) (hne : t ≠ []) :
    ∃ c d s ps uss, op.style.leader = [c] ∧ op.style.delimiter = [d] ∧ t = c :: s ∧
      ps.map Prod.fst = vars ∧ Answers lookup [] ps ∧
      List.Forall₂ (fun p us => Sealed op p.1 p.2 us) ps uss ∧
      Text.pieces d s = uss.flatten := by
  obtain ⟨c, d, hs⟩ := exists_separates hop
  obtain ⟨ps, uss, hps, ha, hg, rfl⟩ := run_expression.mp h
  have hunits : List.Forall₂ (fun p us => p.1.units op p.2 = .ok us) ps uss :=
    hg.imp fun _ _ => unitsFor_eq_ok
  have hmem : ∀ u ∈ uss.flatten, d ∉ u := by
    intro u hu
    obtain ⟨p, -, us, hp, hu⟩ := exists_of_give hg hu
    exact hs.delimiter_not_mem hp hu
  have hflat : uss.flatten ≠ [] := by
    intro he
    rw [he, Operator.assemble_nil] at hne
    exact hne rfl
  obtain ⟨s, hs1, hs2⟩ := hs.pieces_assemble hflat hmem
  exact ⟨c, d, s, ps, uss, hs.leader, hs.delimiter, hs1, hps, ha,
    hunits.imp fun _ _ hu => hs.sealed hu, hs2⟩

/-- A value with a delimiter in it, and a list with an empty member. -/
theorem pathParam_separates : ∃ c d s ps uss, Operator.pathParam.style.leader = [c] ∧
    Operator.pathParam.style.delimiter = [d] ∧ lit ";x=a%3Db%3B;y" = c :: s ∧
    ps.map Prod.fst = [⟨lit "x", lit "x", .whole⟩, ⟨lit "y", lit "y", .explode⟩] ∧
    Answers (fun _ n => .ok (if n = lit "x" then .scalar (lit "a=b;") else .list [[]])) [] ps ∧
    List.Forall₂ (fun p us => Sealed .pathParam p.1 p.2 us) ps uss ∧
    Text.pieces d s = uss.flatten :=
  expression_separates (o := {}) (by decide) rfl (by decide)

end Expansion

end UriTemplate

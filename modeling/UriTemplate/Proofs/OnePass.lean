import UriTemplate.Proofs.Boundaries
import UriTemplate.Proofs.Names
import UriTemplate.Proofs.Reading
import UriTemplate.Proofs.Evaluation
import UriTemplate.Proofs.Units

/-!
Expansion in one pass. The other way to expand an expression writes while it goes through the
variables, and all it carries along is whether one of them was defined by now. It is driven by a
table with a row for each operator. Both ways agree on undefined values, scalars and lists: after
any number of variables, the text that was written is that of the units so far put together.
-/

namespace UriTemplate

/-- A row of the table: what is written before the first variable that is defined and what before
each later one, whether names are written, what stands between a name and an empty value, and
whether reserved characters and triplets of a value are written as they are. -/
structure Row where
  first : Text
  sep : Text
  named : Bool
  ifemp : Text
  reserved : Bool

namespace Row

/-- The table. Operators that are set aside have no row. -/
def of? : Operator → Option Row
  | .simple => some ⟨[], [','], false, [], false⟩
  | .reserved => some ⟨[], [','], false, [], true⟩
  | .fragment => some ⟨['#'], [','], false, [], true⟩
  | .label => some ⟨['.'], ['.'], false, [], false⟩
  | .pathSegment => some ⟨['/'], ['/'], false, [], false⟩
  | .pathParam => some ⟨[';'], [';'], true, [], false⟩
  | .queryForm => some ⟨['?'], ['&'], true, ['='], false⟩
  | .queryContinuation => some ⟨['&'], ['&'], true, ['='], false⟩
  | .future => none

variable (r : Row)

def encode (t : Text) : Text :=
  Percent.encode r.reserved
    (if r.reserved then CharClass.unreservedOrReserved else CharClass.unreserved).admits t

/-- What is written before a value. -/
def label (name value : Text) : Text :=
  if r.named then name ++ (if value.isEmpty then r.ifemp else ['=']) else []

/-- What is written for one text, of which a cut leaves a part. -/
def string (name : Text) (m : Modifier) (t : Text) : Text :=
  r.label name t ++ r.encode (m.trim t)

/-- What is written for the members of a list as one value. -/
def members (name : Text) (ts : List Text) : Text :=
  let value := [.ofChar ','].intercalate (ts.map r.encode)
  r.label name value ++ value

/-- One variable: the text so far, and whether a variable was defined by now. Nothing is written
for maps. -/
def step (shown : Varspec → Text) (s : Text × Bool) (p : Varspec × Value) : Text × Bool :=
  let out := s.1 ++ if s.2 then r.sep else r.first
  match p.2 with
  | .undefined | .list [] | .map _ => s
  | .scalar t => (out ++ r.string (shown p.1) p.1.modifier t, true)
  | .list (t :: ts) =>
    if p.1.modifier.explodes then
      (ts.foldl (fun out t => out ++ r.sep ++ r.string (shown p.1) .whole t)
        (out ++ r.string (shown p.1) .whole t), true)
    else (out ++ r.members (shown p.1) (t :: ts), true)

/-- All variables in one pass, with a way to show their names. -/
def onePass (shown : Varspec → Text) (ps : List (Varspec × Value)) : Text :=
  (ps.foldl (r.step shown) ([], false)).1

/-! ### Rows and operators -/

variable {r : Row} {op : Operator}

lemma first_eq (h : of? op = some r) : r.first = op.style.leader := by
  cases op <;> cases h <;> rfl

lemma sep_eq (h : of? op = some r) : r.sep = op.style.delimiter := by
  cases op <;> cases h <;> rfl

lemma encode_eq (h : of? op = some r) (t : Text) : r.encode t = op.encodeValue t := by
  cases op <;> cases h <;> rfl

lemma label_append (h : of? op = some r) (name value : Text) :
    r.label name value ++ value = op.join false name value := by
  cases op <;> cases h <;> rcases value with _ | ⟨c, value⟩ <;>
    simp [label, Operator.join, Operator.style, Operator.pair]

lemma label_eq {t t' : Text} (h : t = [] ↔ t' = []) (name : Text) :
    r.label name t = r.label name t' := by
  rcases t with _ | ⟨c, t⟩ <;> rcases t' with _ | ⟨d, t'⟩ <;> simp_all [label]

lemma trim_eq_nil (m : Modifier) (t : Text) : m.trim t = [] ↔ t = [] := by
  rcases m with _ | n | _
  · rfl
  · have hn : n.val ≠ 0 := by
      have := n.property.1
      omega
    simp [Modifier.trim, hn]
  · rfl

/-- What is written for a text is its unit. A cut leaves something of what is not empty. -/
lemma string_eq (h : of? op = some r) (name : Text) (m : Modifier) (t : Text) :
    r.string (op.encodeName name) m t = Varspec.unit op name (m.trim t) := by
  have hnil : t = [] ↔ op.encodeValue (m.trim t) = [] := by
    rw [Operator.encodeValue, Percent.encode_eq_nil, trim_eq_nil]
  rw [string, encode_eq h, label_eq hnil, label_append h]
  rfl

lemma members_eq (h : of? op = some r) (name : Text) (ts : List Text) :
    r.members name ts = op.join false name (Varspec.commaJoined op ts) := by
  have henc : r.encode = op.encodeValue := funext (encode_eq h)
  rw [members, henc, label_append h]
  rfl

/-! ### The text so far -/

/-- A value that the pass writes: none that is a map, and no list that is to be cut. -/
def Writes (v : Varspec) : Value → Prop
  | .undefined | .scalar _ => True
  | .list _ => v.modifier.cut? = none
  | .map _ => False

lemma exists_units (op : Operator) {v : Varspec} {x : Value} (h : Writes v x) :
    ∃ us, v.units op x = .ok us := by
  rcases x with _ | t | ts | es
  · exact ⟨_, rfl⟩
  · exact ⟨_, Varspec.units_scalar op v t⟩
  · exact ⟨_, Varspec.units_list h⟩
  · cases h

lemma exists_all_units (op : Operator) {ps : List (Varspec × Value)}
    (h : ∀ p ∈ ps, Writes p.1 p.2) :
    ∃ uss, List.Forall₂ (fun p us => p.1.units op p.2 = .ok us) ps uss := by
  induction ps with
  | nil => exact ⟨[], .nil⟩
  | cons p ps ih =>
    obtain ⟨uss, hu⟩ := ih fun q hq => h q (List.mem_cons_of_mem _ hq)
    obtain ⟨us, hp⟩ := exists_units op (h p (by simp))
    exact ⟨us :: uss, .cons hp hu⟩

/-- What the pass carries along after some units. -/
def reached (op : Operator) (us : List Text) : Text × Bool := (op.assemble us, !us.isEmpty)

lemma reached_append (h : of? op = some r) (us : List Text) {vs : List Text} (hv : vs ≠ []) :
    reached op (us ++ vs) = ((reached op us).1 ++
      (if (reached op us).2 then r.sep else r.first) ++ r.sep.intercalate vs, true) := by
  have hne : us ++ vs ≠ [] := by simp [hv]
  simp only [reached, op.assemble_append us hv, first_eq h, sep_eq h]
  rcases us with _ | ⟨u, us⟩ <;> simp [hv]

lemma foldl_sep (f : Text → Text) (ts : List Text) (out t : Text) :
    ts.foldl (fun out t => out ++ r.sep ++ f t) (out ++ f t) =
      out ++ r.sep.intercalate ((t :: ts).map f) := by
  induction ts generalizing out t with
  | nil => simp
  | cons u ts ih =>
    have h := ih (out ++ f t ++ r.sep) u
    rw [List.foldl_cons, h]
    simp [List.append_assoc]

/-- **One variable** adds its units. -/
theorem step_reached (h : of? op = some r) {v : Varspec} {x : Value} (hx : Writes v x)
    {vs : List Text} (hu : v.units op x = .ok vs) (us : List Text) :
    r.step (fun v => op.encodeName v.decoded) (reached op us) (v, x) = reached op (us ++ vs) := by
  rcases x with _ | t | ts | es
  · cases hu
    rw [List.append_nil]
    rfl
  · rw [Varspec.units_scalar] at hu
    cases hu
    rw [reached_append h us (by simp), List.intercalate_singleton, ← string_eq h]
    rfl
  · have hx : v.modifier.cut? = none := hx
    rw [Varspec.units_list hx] at hu
    cases hu
    rcases ts with _ | ⟨t, ts⟩
    · simp [step]
    · by_cases he : v.modifier.explodes = true
      · -- the first member follows what stands before the variable, the others a separator each
        rw [if_pos he, reached_append h us (by simp)]
        simp only [step, he, if_true, string_eq h, foldl_sep, Modifier.trim]
      · rw [if_neg he, if_neg (by simp), reached_append h us (by simp),
          List.intercalate_singleton, ← members_eq h]
        simp only [step, he]
        rfl
  · cases hx

/-- **All variables** add theirs. -/
theorem foldl_reached (h : of? op = some r) {ps : List (Varspec × Value)}
    {uss : List (List Text)} (hp : ∀ p ∈ ps, Writes p.1 p.2)
    (hu : List.Forall₂ (fun p us => p.1.units op p.2 = .ok us) ps uss) (us : List Text) :
    ps.foldl (r.step fun v => op.encodeName v.decoded) (reached op us) =
      reached op (us ++ uss.flatten) := by
  induction hu generalizing us with
  | nil => simp
  | @cons p vs ps uss hv _ ih =>
    rw [List.foldl_cons, step_reached h (hp p (by simp)) hv,
      ih fun q hq => hp q (List.mem_cons_of_mem _ hq)]
    simp

end Row

/-! ### Names without triplets -/

namespace Grammar

/-- A name without triplets is what it decodes to, and nothing of it is ever encoded. -/
theorem eq_of_varname {u d : Text} (h : Varname u d) (hp : .ofChar '%' ∉ u) :
    u = d ∧ ∀ c ∈ d, CharClass.unreserved.admits c = true := by
  have hchars := (spelled_varname h).forall_of_not_mem hp
  have hoctets : u.flatMap Utf8.encode = d.flatMap Utf8.encode := by
    rw [← (writes_varname h).octets_eq, ← Percent.octets_encode CharClass.unreserved_percent,
      Percent.encode_of_forall hchars]
  obtain rfl := Utf8.flatMap_encode_injective hoctets
  exact ⟨rfl, hchars⟩

end Grammar

/-! ### Both ways agree -/

namespace Row

lemma onePass_congr (r : Row) {f g : Varspec → Text} {ps : List (Varspec × Value)}
    (h : ∀ p ∈ ps, f p.1 = g p.1) : r.onePass f ps = r.onePass g ps := by
  unfold onePass
  rw [List.foldl_ext]
  intro s p hp
  simp only [step, h p hp]

end Row

namespace Expansion

/-- **One pass** over the variables and the values that they are answered with gives what the
expression gives, if names are shown with all but unreserved characters encoded; and names without
triplets are shown as they are. -/
theorem expression_eq_onePass {lookup : Lookup} {o : Options} {op : Operator} {r : Row}
    {ps : List (Varspec × Value)} (ho : o.allowsUndefined = true) (hr : Row.of? op = some r)
    (ha : Answers lookup [] ps) (hw : ∀ p ∈ ps, Row.Writes p.1 p.2) :
    (run (expression lookup o op (ps.map Prod.fst))).result =
        .ok (r.onePass (fun v => Percent.encode false CharClass.unreserved.admits v.decoded) ps) ∧
      ((∀ p ∈ ps, Grammar.Varname p.1.name p.1.decoded ∧ .ofChar '%' ∉ p.1.name) →
        (run (expression lookup o op (ps.map Prod.fst))).result =
          .ok (r.onePass Varspec.name ps)) := by
  obtain ⟨uss, hu⟩ := Row.exists_all_units op hw
  have hgives : Give o op ps uss := hu.imp fun p us h => by rw [unitsFor_of_allows ho, h]
  have hpass := Row.foldl_reached hr hw hu []
  have hrun : (run (expression lookup o op (ps.map Prod.fst))).result =
      .ok (r.onePass (fun v => op.encodeName v.decoded) ps) := by
    rw [run_expression]
    exact ⟨ps, uss, rfl, ha, hgives, congrArg Prod.fst hpass⟩
  refine ⟨hrun, fun hn => ?_⟩
  rw [hrun, Row.onePass_congr r]
  intro p hp
  obtain ⟨hname, hchars⟩ := Grammar.eq_of_varname (hn p hp).1 (hn p hp).2
  rw [Operator.encodeName, Percent.encode_of_forall hchars, hname]

/-- An empty value, an undefined one, and a list with an empty member. -/
theorem queryForm_eq_onePass :
    let lookup : Lookup := fun _ n =>
      .ok (if n = lit "x" then .scalar [] else if n = lit "y" then .undefined else .list [[], []])
    let ps : List (Varspec × Value) := [(⟨lit "x", lit "x", .whole⟩, .scalar []),
      (⟨lit "y", lit "y", .whole⟩, .undefined), (⟨lit "z", lit "z", .explode⟩, .list [[], []])]
    (run (expression lookup {} .queryForm (ps.map Prod.fst))).result =
      .ok (Row.onePass ⟨['?'], ['&'], true, ['='], false⟩ Varspec.name ps) := by
  intro lookup ps
  have hname : ∀ c : CodePoint, CharClass.varchar.admits c = true → Grammar.Varname [c] [c] :=
    fun c hc => .mk (.plain hc) .nil
  have hw : ∀ p ∈ ps, Row.Writes p.1 p.2 := by simp [ps, Row.Writes, Modifier.cut?]
  have ha : Answers lookup [] ps := ⟨rfl, rfl, rfl, trivial⟩
  refine (expression_eq_onePass rfl rfl ha hw).2 ?_
  simp only [ps, List.mem_cons, List.not_mem_nil, or_false]
  rintro p (rfl | rfl | rfl) <;> exact ⟨hname _ (by decide), by decide⟩

/-- A name with a character that is encoded is not shown as it is written. -/
theorem shown_name_ne : ¬ ∀ (lookup : Lookup) (o : Options) (op : Operator) (r : Row)
    (ps : List (Varspec × Value)), o.allowsUndefined = true → Row.of? op = some r →
    Answers lookup [] ps → (∀ p ∈ ps, Row.Writes p.1 p.2) → (∀ p ∈ ps, .ofChar '%' ∉ p.1.name) →
    (run (expression lookup o op (ps.map Prod.fst))).result = .ok (r.onePass Varspec.name ps) := by
  intro h
  have hspace := h (fun _ _ => .ok (.scalar (lit "1"))) {} .queryForm _
    [(⟨lit "a b", lit "a b", .whole⟩, .scalar (lit "1"))] rfl rfl ⟨rfl, trivial⟩
    (by simp [Row.Writes]) (by decide)
  have htext : lit "?a%20b=1" = lit "?a b=1" := Except.ok.inj hspace
  exact absurd htext (by decide)

end Expansion

end UriTemplate

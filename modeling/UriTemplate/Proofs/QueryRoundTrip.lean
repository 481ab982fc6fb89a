import UriTemplate.Proofs.Printing
import UriTemplate.Proofs.Queries

/-!
Queries there and back. A template for a query shows the names and values that it was expanded with,
and reading the query gives these names, decoded, with these values, in the same order: a name that
occurs once has a text, and one that occurs more often a list.
-/

namespace UriTemplate

namespace Query

/-- A value that a query can carry: a text, or a list of two texts or more, without surrogates. -/
def Carries : Value → Prop
  | .scalar t => ∀ c ∈ t, c.isSurrogate = false
  | .list ts => 2 ≤ ts.length ∧ ∀ t ∈ ts, ∀ c ∈ t, c.isSurrogate = false
  | _ => False

instance : DecidablePred Carries
  | .scalar t => inferInstanceAs (Decidable (∀ c ∈ t, c.isSurrogate = false))
  | .list ts =>
    inferInstanceAs (Decidable (2 ≤ ts.length ∧ ∀ t ∈ ts, ∀ c ∈ t, c.isSurrogate = false))
  | .undefined | .map _ => .isFalse id

/-- A field of a query: a name as a template spells it, what percent-decoding makes of it, and the
value that it is bound to. -/
structure Field where
  token : Name
  name : Text
  value : Value
  named : Grammar.Named token name
  carried : Carries value

namespace Field

/-- The variable of a field, with a unit for each text. -/
def varspec (f : Field) : Varspec := ⟨f.token, f.name, .explode⟩

/-- The texts that a field has. -/
def texts (f : Field) : List Text :=
  match f.value with
  | .scalar t => [t]
  | .list ts => ts
  | _ => []

/-- A field has a single text, or two or more in a list. -/
lemma value_cases (f : Field) : (∃ t, f.value = .scalar t ∧ f.texts = [t]) ∨
    ∃ t u ts, f.value = .list (t :: u :: ts) ∧ f.texts = t :: u :: ts := by
  obtain ⟨token, name, value, -, hv⟩ := f
  rcases value with _ | t | ⟨_ | ⟨t, _ | ⟨u, ts⟩⟩⟩ | es
  · cases hv
  · exact .inl ⟨t, rfl, rfl⟩
  · simp [Carries] at hv
  · simp [Carries] at hv
  · exact .inr ⟨t, u, ts, rfl, rfl⟩
  · cases hv

lemma texts_ne_nil (f : Field) : f.texts ≠ [] := by
  obtain ⟨t, -, h⟩ | ⟨t, u, ts, -, h⟩ := f.value_cases <;> simp [h]

lemma valueOf_texts (f : Field) : Variables.valueOf f.texts = f.value := by
  obtain ⟨t, hv, h⟩ | ⟨t, u, ts, hv, h⟩ := f.value_cases <;> simp [h, hv, Variables.valueOf]

lemma value_ne_undefined (f : Field) : f.value ≠ .undefined := by
  obtain ⟨t, hv, -⟩ | ⟨t, u, ts, hv, -⟩ := f.value_cases <;> simp [hv]

lemma scalars_texts (f : Field) : ∀ t ∈ f.texts, ∀ c ∈ t, c.isSurrogate = false := by
  have hc := f.carried
  obtain ⟨t, hv, h⟩ | ⟨t, u, ts, hv, h⟩ := f.value_cases <;> rw [hv] at hc <;> rw [h]
  · simpa [Carries] using hc
  · exact hc.2

end Field

/-- A template with a given trigger for some fields, each exploded. -/
def template (trigger : Char) (fs : List Field) : Text :=
  .ofChar '{' :: .ofChar trigger ::
    ([.ofChar ','].intercalate (fs.map fun f => f.token ++ [.ofChar '*']) ++ [.ofChar '}'])

/-- The names of some fields, each with its texts. -/
def groups (fs : List Field) : List (Name × List Text) := fs.map fun f => (f.name, f.texts)

/-! ### Fields in an expansion -/

lemma termsOf_template {op : Operator} {c : Char} (hop : op ≠ .future)
    (ho : op.printed = [.ofChar c]) (fs : List Field) :
    termsOf (template c fs) = .ok [.expression op (fs.map Field.varspec)] := by
  have hprinted : template c fs = Term.printAll [.expression op (fs.map Field.varspec)] := by
    rw [Term.printAll, List.flatMap_singleton, Term.printed, ho, List.map_map]
    rfl
  have hnormal : (Term.expression op (fs.map Field.varspec)).IsNormal := by
    refine ⟨hop, fun v hv => ?_⟩
    obtain ⟨f, -, rfl⟩ := List.mem_map.mp hv
    exact f.named
  rw [hprinted]
  exact termsOf_printAll (Term.WellFormed.cons_iff.mpr ⟨hnormal, .nil, by simp⟩)

/-- The operators for queries. -/
def operators : List Operator := [.queryForm, .queryContinuation]

lemma units_field {op : Operator} (hop : op ∈ operators) (f : Field) :
    f.varspec.units op f.value = .ok (f.texts.map fun t => written (f.name, t)) := by
  simp only [operators, List.mem_cons, List.not_mem_nil, or_false] at hop
  obtain ⟨t, hv, h⟩ | ⟨t, u, ts, hv, h⟩ := f.value_cases <;> rw [hv, h] <;>
    rcases hop with rfl | rfl <;> rfl

lemma give_fields {op : Operator} (hop : op ∈ operators) (o : Options) (fs : List Field) :
    Expansion.Give o op (fs.map fun f => (f.varspec, f.value))
      (fs.map fun f => f.texts.map fun t => written (f.name, t)) := by
  rw [Expansion.Give, List.forall₂_map_left_iff, List.forall₂_map_right_iff, List.forall₂_same]
  intro f _
  simp [Expansion.unitsFor, f.value_ne_undefined, units_field hop f]

/-- **Fields are shown** as pairs, put together by the operator. -/
theorem expand_template {op : Operator} {c : Char} (hop : op ∈ operators)
    (ho : op.printed = [.ofChar c]) {fs : List Field} {b : Bindings} {lookup : Expansion.Lookup}
    (hb : b.lookup = .ok lookup)
    (ha : Expansion.Answers lookup [] (fs.map fun f => (f.varspec, f.value))) (o : Options) :
    (Template.expandSource (template c fs) b o).result =
      .ok (op.assemble ((spread (groups fs)).map written)) := by
  have hfuture : op ≠ .future := by
    rintro rfl
    simp [operators] at hop
  have hunits : (fs.map fun f => f.texts.map fun t => written (f.name, t)).flatten =
      (spread (groups fs)).map written := by
    simp [spread, groups, List.flatMap_def, Function.comp_def]
  have hvars : (fs.map fun f => (f.varspec, f.value)).map Prod.fst = fs.map Field.varspec := by
    simp
  rw [Template.expandSource_of_termsOf (termsOf_template hfuture ho fs) hb]
  have hafter := Expansion.after_expression.mpr
    ⟨_, _, hvars, ha, give_fields hop o fs, rfl, rfl⟩
  rw [hunits] at hafter
  exact Expansion.run_terms_singleton hafter

/-! ### Fields of a query -/

lemma scalars_spread {fs : List Field} :
    ∀ e ∈ spread (groups fs), ∀ c ∈ e.1 ++ e.2, c.isSurrogate = false := by
  intro e he c hc
  obtain ⟨g, hg, he⟩ := List.mem_flatMap.mp he
  obtain ⟨f, -, rfl⟩ := List.mem_map.mp hg
  obtain ⟨t, ht, rfl⟩ := List.mem_map.mp he
  rcases List.mem_append.mp hc with hc | hc
  · exact (Grammar.writes_varname (Grammar.named_iff.mp f.named)).scalars c hc
  · exact f.scalars_texts t ht c hc

/-- **Fields are found again**, names that are different with the values that they had. -/
theorem ofQuery_fields {fs : List Field} (hd : (fs.map Field.name).Nodup) :
    (Variables.ofQuery ([.ofChar '&'].intercalate ((spread (groups fs)).map written))).entries =
      fs.map fun f => (.text f.name, f.value) := by
  have hnames : ((groups fs).map Prod.fst).Nodup := by
    rwa [groups, List.map_map]
  have hne : ∀ e ∈ groups fs, e.2 ≠ [] := by
    intro e he
    obtain ⟨f, -, rfl⟩ := List.mem_map.mp he
    exact f.texts_ne_nil
  rw [Variables.ofQuery, pairs_intercalate scalars_spread, grouped_spread hnames hne,
    Variables.entries_ofMultimap hnames, groups, List.map_map]
  refine List.map_congr_left fun f _ => ?_
  simp [Field.valueOf_texts]

lemma spread_groups_eq_nil {fs : List Field} : spread (groups fs) = [] ↔ fs = [] := by
  constructor
  · intro h
    rcases fs with _ | ⟨f, fs⟩
    · rfl
    · simp [spread, groups, f.texts_ne_nil] at h
  · rintro rfl
    rfl

/-- **A query there and back**: what a template for a query expands to, without its leading question
mark, is a query that binds the decoded names to the values that the template was expanded with, in
the order of the template; and so is what a template for more of a query expands to, as it is. -/
theorem ofQuery_expand {fs : List Field} (hd : (fs.map Field.name).Nodup) {b : Bindings}
    {lookup : Expansion.Lookup} (hb : b.lookup = .ok lookup)
    (ha : Expansion.Answers lookup [] (fs.map fun f => (f.varspec, f.value))) (o : Options) :
    (∃ q, (Template.expandSource (template '?' fs) b o).result =
        .ok (if fs.isEmpty then q else .ofChar '?' :: q) ∧
      (Variables.ofQuery q).entries = fs.map fun f => (.text f.name, f.value)) ∧
    ∃ q, (Template.expandSource (template '&' fs) b o).result = .ok q ∧
      (Variables.ofQuery q).entries = fs.map fun f => (.text f.name, f.value) := by
  have hq := ofQuery_fields hd
  have hform : (Template.expandSource (template '?' fs) b o).result =
      .ok (Operator.queryForm.assemble ((spread (groups fs)).map written)) :=
    expand_template (by decide) rfl hb ha o
  have hmore : (Template.expandSource (template '&' fs) b o).result =
      .ok (Operator.queryContinuation.assemble ((spread (groups fs)).map written)) :=
    expand_template (by decide) rfl hb ha o
  by_cases hfs : fs = []
  · subst hfs
    exact ⟨⟨[], hform, hq⟩, ⟨[], hmore, hq⟩⟩
  · have hne : (spread (groups fs)).map written ≠ [] := by
      simpa [spread_groups_eq_nil] using hfs
    rw [Operator.assemble_of_ne_nil _ hne] at hform hmore
    refine ⟨⟨_, ?_, hq⟩, ⟨_, hmore, ?_⟩⟩
    · rw [if_neg (by simpa using hfs)]
      exact hform
    · -- the leader is an ampersand more, before which nothing stands
      rw [← hq, Variables.ofQuery, Variables.ofQuery,
        ← pairs_ampersand ([.ofChar '&'].intercalate _)]
      rfl

/-- A name with a triplet in it, a text full of delimiters, and a list with an empty member. -/
theorem ofQuery_expand_triplet :
    ∃ q, (Template.expandSource (lit "\x7b?a.%26*,b*\x7d")
        (.datum (.map [(.text (lit "a.%26"), .text (lit "1+ =%")),
          (.text (lit "b"), .list [.text [], .text (lit "c&d")])])) {}).result =
        .ok (.ofChar '?' :: q) ∧
      (Variables.ofQuery q).entries = [(.text (lit "a.&"), .scalar (lit "1+ =%")),
        (.text (lit "b"), .list [[], lit "c&d"])] := by
  have ht : Grammar.Triplets ['%', '2', '6'] (String.utf8EncodeChar '&') :=
    .cons (a := '2') (b := '6') rfl rfl .nil
  have hdot : Grammar.Dotted ['.', '%', '2', '6'] ['.', '&'] := .dot (.encoded ht)
  have ha : Grammar.Varname ['a', '.', '%', '2', '6'] ['a', '.', '&'] :=
    .mk (u := ['a']) (.plain rfl) (.cons hdot .nil)
  have hn : Grammar.Varname ['b'] ['b'] := .mk (.plain rfl) .nil
  let f : Field := ⟨_, _, .scalar (lit "1+ =%"), Grammar.named_iff.mpr ha, by decide⟩
  let g : Field := ⟨_, _, .list [[], lit "c&d"], Grammar.named_iff.mpr hn, by decide⟩
  have hb : (Bindings.datum (.map [(.text (lit "a.%26"), .text (lit "1+ =%")),
      (.text (lit "b"), .list [.text [], .text (lit "c&d")])])).lookup = .ok _ := rfl
  have hd : ([f, g].map Field.name).Nodup := by simp [f, g]
  obtain ⟨⟨q, hq, he⟩, -⟩ := ofQuery_expand hd hb ⟨rfl, rfl, trivial⟩ {}
  exact ⟨q, hq, he⟩

end Query

end UriTemplate

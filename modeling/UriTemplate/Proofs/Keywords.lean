import UriTemplate.Proofs.Compilation
import UriTemplate.Proofs.Dependence
import UriTemplate.Proofs.Binding
import UriTemplate.Filter

/-!
Keywords over a mapping. The filter expands a template with the function that answers for each
keyword with its datum, and for every other name with what the mapping has, if there is a mapping.
So keywords win over entries, null hides an entry, and the mapping matters for no name but those of
the template that are no keywords. A source that is no template is an error ahead of all that.
-/

namespace UriTemplate.Filter

open Bindings (entryOf lookupData)

/-! ### Overriding -/

/-- What is given besides keywords: a mapping, or nothing. -/
def given : Option (List (Datum × Datum)) → Bindings
  | none => .datum .null
  | some es => .datum (.map es)

/-- What the mapping that is given has for a name, null if it has nothing or is not there. -/
def entryIn (m : Option (List (Datum × Datum))) (n : Name) : Datum := entryOf (m.getD []) n

/-- A keyword has its datum, and every other name what the mapping has. -/
def override (m : Option (List (Datum × Datum))) (keywords : List (Name × Datum)) (n : Name) :
    Datum :=
  match keywords.lookup n with
  | some d => d
  | none => entryIn m n

variable {keywords : List (Name × Datum)} {m m' : Option (List (Datum × Datum))} {n : Name}

lemma override_of_notMem (hn : n ∉ keywords.map Prod.fst) :
    override m keywords n = entryIn m n := by
  rw [override, lookup_of_notMem hn]

lemma override_of_mem (hk : (keywords.map Prod.fst).Nodup) {p : Name × Datum}
    (hp : p ∈ keywords) : override m keywords p.1 = p.2 := by
  rw [override, lookup_of_mem hk hp]

/-- Whatever mappings have for keywords does not matter. -/
lemma override_congr (hk : (keywords.map Prod.fst).Nodup)
    (h : n ∉ keywords.map Prod.fst → entryIn m n = entryIn m' n) :
    override m keywords n = override m' keywords n := by
  by_cases hn : n ∈ keywords.map Prod.fst
  · obtain ⟨p, hp, rfl⟩ := List.mem_map.mp hn
    rw [override_of_mem hk hp, override_of_mem hk hp]
  · rw [override_of_notMem hn, override_of_notMem hn, h hn]

lemma entryIn_erase_self (m : Option (List (Datum × Datum))) (n : Name) :
    entryIn (m.map (Keyed.erase (.text n))) n = .null := by
  have hnone := Keyed.lookup_erase_self (Datum.exact_text n) (m.getD [])
  cases m with
  | none => rfl
  | some es => exact congrArg (Option.getD · Datum.null) hnone

lemma entryIn_erase_of_ne (m : Option (List (Datum × Datum))) {n' : Name} (hn : n' ≠ n) :
    entryIn (m.map (Keyed.erase (.text n))) n' = entryIn m n' := by
  have hsame := Keyed.lookup_erase_of_ne (Datum.exact_text n') (Datum.text_ne (Ne.symm hn))
    (m.getD [])
  cases m with
  | none => rfl
  | some es => exact congrArg (Option.getD · Datum.null) hsame

/-- **A keyword that is null** is as good as no keyword and no entry. -/
theorem override_null (hk : (keywords.map Prod.fst).Nodup) (hn : (n, .null) ∈ keywords) :
    override m keywords = override (m.map (Keyed.erase (.text n))) (Keyed.erase n keywords) := by
  funext n'
  by_cases h : n' = n
  · subst h
    have hself := Keyed.lookup_erase_self (Keyed.exact_of_lawfulBEq n') keywords
    rw [override_of_mem hk hn, override, hself]
    exact (entryIn_erase_self m n').symm
  · have hrest := Keyed.lookup_erase_of_ne (Keyed.exact_of_lawfulBEq n') (Ne.symm h) keywords
    rw [override, override, hrest, entryIn_erase_of_ne m h]

/-- Keywords that are put over a mapping override its entries. -/
lemma lookup_merged (hk : (keywords.map Prod.fst).Nodup) (es : List (Datum × Datum)) (n : Name) :
    (merged es keywords).lookup (.text n) = (keywords.lookup n).or (es.lookup (.text n)) := by
  induction keywords generalizing es with
  | nil => rfl
  | cons p keywords ih =>
    obtain ⟨k, d⟩ := p
    obtain ⟨hp, hk⟩ := List.nodup_cons.mp hk
    have hmerged : merged es ((k, d) :: keywords) = merged (Keyed.put (.text k) d es) keywords :=
      rfl
    rw [hmerged, ih hk, List.lookup_cons]
    by_cases hn : n = k
    · subst hn
      rw [lookup_of_notMem hp, Keyed.lookup_put_self (Datum.exact_text n), beq_self_eq_true]
      rfl
    · have hne : (n == k) = false := beq_eq_false_iff_ne.mpr hn
      rw [hne, Keyed.lookup_put_of_ne (Datum.exact_text n) (Datum.text_ne (Ne.symm hn))]

lemma entryOf_merged (hk : (keywords.map Prod.fst).Nodup) :
    entryOf (merged (m.getD []) keywords) = override m keywords := by
  funext n
  rw [entryOf, lookup_merged hk, override, entryIn, entryOf]
  cases keywords.lookup n <;> rfl

/-! ### Expanding -/

/-- What is given is merged with keywords: nothing and an empty mapping are passed over alike. -/
lemma bindings_given (m : Option (List (Datum × Datum))) (keywords : List (Name × Datum)) :
    bindings (given m) keywords = .ok (.datum (.map (merged (m.getD []) keywords))) := by
  rcases m with _ | _ | ⟨e, es⟩ <;> rfl

/-- Merging and then looking names up is looking them up in turn. -/
lemma expand_given (hk : (keywords.map Prod.fst).Nodup) (src : Source)
    (m : Option (List (Datum × Datum))) :
    expand src (given m) keywords =
      (do let t ← src.compile; (t.expand (.function (override m keywords)) {}).result) := by
  rw [expand]
  rcases src.compile with e | t
  · rfl
  · have hlookup : (t.expand (.datum (.map (merged (m.getD []) keywords))) {}).result =
        (t.expand (.function (override m keywords)) {}).result := by
      rw [Template.expand_eq rfl, Template.expand_eq rfl, entryOf_merged hk]
    rw [bindings_given]
    exact hlookup

/-- Functions that are equal on the names of a template expand it alike. -/
lemma expand_function_congr {t : Template} {f g : Name → Datum}
    (h : ∀ n ∈ t.variableNames, f n = g n) (o : Options) :
    t.expand (.function f) o = t.expand (.function g) o := by
  rw [Template.expand_eq rfl, Template.expand_eq rfl]
  refine Expansion.run_terms_congr (fun asked _ n hn => ?_) o
  rw [lookupData, lookupData, h n (List.mem_eraseDups.mpr hn)]

/-- **No template is an error** ahead of all else. -/
lemma expand_of_compile_error {src : Source} {e : Error} (h : src.compile = .error e)
    (b : Bindings) (keywords : List (Name × Datum)) : expand src b keywords = .error e := by
  rw [expand, h]
  rfl

lemma compile_error_cases {src : Source} {e : Error} (h : src.compile = .error e) :
    ∃ s pos reason, src = .text s ∧ e = .parse s pos reason := by
  cases src with
  | text s =>
    rcases hs : termsOf s with r | ts
    · rw [Source.compile, Template.compile_of_error hs] at h
      cases h
      exact ⟨s, _, _, rfl, rfl⟩
    · rw [Source.compile, Template.compile_of_termsOf hs] at h
      cases h
  | template t => cases h

/-- **The filter overrides** a mapping, if there is one, by keywords: it expands with the function
that has the datum of each keyword, and for every other name what the mapping has. So nothing else
about the mapping matters than what it has for the names of the template that are no keywords. A
keyword that is null is undefined, as if neither it nor an entry of its name were there. A source
that does not compile is that error whatever is given with it. The form for expressions is the
filter without a mapping. -/
theorem expand_override (src : Source) (m : Option (List (Datum × Datum)))
    (keywords : List (Name × Datum)) (hk : (keywords.map Prod.fst).Nodup) :
    expand src (given m) keywords =
        (do let t ← src.compile; (t.expand (.function (override m keywords)) {}).result) ∧
      (∀ m', (∀ t n, src.compile = .ok t → n ∈ t.variableNames → n ∉ keywords.map Prod.fst →
          entryIn m n = entryIn m' n) →
        expand src (given m) keywords = expand src (given m') keywords) ∧
      (∀ n, (n, .null) ∈ keywords →
        (∀ asked, lookupData (override m keywords) asked n = .ok .undefined) ∧
          expand src (given m) keywords =
            expand src (given (m.map (Keyed.erase (.text n)))) (Keyed.erase n keywords)) ∧
      (∀ e, src.compile = .error e → (∃ s pos reason, src = .text s ∧ e = .parse s pos reason) ∧
        ∀ b keywords', expand src b keywords' = .error e) ∧
      expandGlobal src keywords = expand src (given none) keywords := by
  refine ⟨expand_given hk src m, fun m' h => ?_, fun n hn => ⟨fun asked => ?_, ?_⟩,
    fun e he => ⟨compile_error_cases he, expand_of_compile_error he⟩, rfl⟩
  · rcases hsrc : src.compile with e | t
    · rw [expand_of_compile_error hsrc, expand_of_compile_error hsrc]
    · have hcongr := expand_function_congr (fun n hn => override_congr hk (h t n hsrc hn)) {}
      rw [expand_given hk, expand_given hk, hsrc]
      exact congrArg Expansion.Outcome.result hcongr
  · rw [lookupData, override_of_mem hk hn]
    rfl
  · have herased : ((Keyed.erase n keywords).map Prod.fst).Nodup :=
      (List.filter_sublist.map Prod.fst).nodup hk
    rw [expand_given hk, expand_given herased, override_null hk hn]

/-- A keyword over an entry, one that is null, an entry of a type that makes no value and is not
asked for, and a source that does not compile. -/
theorem expand_override_query :
    let src := Source.text (lit "\x7b?q,r,x\x7d")
    let keywords := [(lit "q", Datum.text (lit "new")), (lit "r", .null)]
    let x := (Datum.text (lit "x"), Datum.int 1)
    let m := some [(.text (lit "q"), .text (lit "old")), (.text (lit "r"), .bool true), x,
      (.text (lit "u"), .object (lit "Foo"))]
    (keywords.map Prod.fst).Nodup ∧ expand src (given m) keywords = .ok (lit "?q=new&x=1") ∧
      (∀ t n, src.compile = .ok t → n ∈ t.variableNames → n ∉ keywords.map Prod.fst →
        entryIn m n = entryIn (some [x]) n) ∧
      expand src (given m) keywords = expand src (given (some [x])) keywords ∧
      (lit "r", .null) ∈ keywords ∧
      expand src (given m) keywords =
        expand src (given (m.map (Keyed.erase (.text (lit "r"))))) [(lit "q", .text (lit "new"))] ∧
      ∃ e, (Source.text (lit "\x7b")).compile = .error e ∧
        expand (.text (lit "\x7b")) (given m) keywords = .error e := by
  intro src keywords x m
  have hk : (keywords.map Prod.fst).Nodup := by decide
  have hs : termsOf (lit "\x7b?q,r,x\x7d") = .ok [.expression .queryForm
      [⟨lit "q", lit "q", .whole⟩, ⟨lit "r", lit "r", .whole⟩, ⟨lit "x", lit "x", .whole⟩]] := by
    decide +kernel
  have hagree : ∀ t n, src.compile = .ok t → n ∈ t.variableNames → n ∉ keywords.map Prod.fst →
      entryIn m n = entryIn (some [x]) n := by
    intro t n ht hn hkeyword
    rw [Source.compile, Template.compile_of_termsOf hs] at ht
    cases ht
    have honly : ∀ n ∈ [lit "q", lit "r", lit "x"], n ∉ [lit "q", lit "r"] → n = lit "x" := by
      decide
    obtain rfl := honly n (List.mem_eraseDups.mp hn) hkeyword
    rfl
  have hr : (lit "r", .null) ∈ keywords := .tail _ (.head _)
  have hbrace : termsOf (lit "\x7b") = .error ⟨.unexpectedCharacter, 0⟩ := by decide +kernel
  obtain ⟨hexpand, hsame, hnull, -, -⟩ := expand_override src m keywords hk
  obtain ⟨-, -, -, herror, -⟩ := expand_override (.text (lit "\x7b")) m keywords hk
  refine ⟨hk, ?_, hagree, hsame _ hagree, hr, (hnull _ hr).2, _,
    Template.compile_of_error hbrace, (herror _ (Template.compile_of_error hbrace)).2 _ _⟩
  rw [hexpand, Source.compile, Template.compile_of_termsOf hs]
  rfl

end UriTemplate.Filter

import UriTemplate.Proofs.Failure
import UriTemplate.Template

/-!
What an expansion depends on. The names of a template are those that its expansions ask for, in the
order in which they first do, and two lookups that agree on these names cannot be told apart by the
template.
-/

namespace UriTemplate

/-- The second list has the members of the first, each once, in the order in which they first occur
there. -/
def FirstUses (l m : List Name) : Prop :=
  (∀ n, n ∈ m ↔ n ∈ l) ∧ m.Pairwise fun a b => l.idxOf a < l.idxOf b

lemma FirstUses.nodup {l m : List Name} (h : FirstUses l m) : m.Nodup := by
  refine h.2.imp ?_
  rintro a b hlt rfl
  exact absurd hlt (Nat.lt_irrefl _)

lemma firstUses_eraseDups (l : List Name) : FirstUses l l.eraseDups := by
  refine ⟨fun n => List.mem_eraseDups, ?_⟩
  -- from the end, since what comes later changes no first occurrence
  induction l using List.reverseRecOn with
  | nil => exact List.Pairwise.nil
  | append_singleton l n ih =>
    have hl : l.eraseDups.Pairwise fun a b => (l ++ [n]).idxOf a < (l ++ [n]).idxOf b := by
      refine ih.imp_of_mem ?_
      intro a b ha hb hlt
      rw [List.mem_eraseDups] at ha hb
      rwa [List.idxOf_append_of_mem ha, List.idxOf_append_of_mem hb]
    by_cases hn : n ∈ l
    · simpa [List.eraseDups_append, List.removeAll, hn] using hl
    · have hsplit : (l ++ [n]).eraseDups = l.eraseDups ++ [n] := by
        simp [List.eraseDups_append, List.removeAll, hn, List.eraseDups_cons]
      rw [hsplit]
      refine List.pairwise_append.mpr ⟨hl, List.pairwise_singleton _ _, ?_⟩
      intro a ha b hb
      rw [List.mem_eraseDups] at ha
      rw [List.mem_singleton.mp hb, List.idxOf_append_of_mem ha, List.idxOf_append_of_notMem hn]
      have := List.idxOf_lt_length_iff.mpr ha
      omega

namespace Expansion

variable {α β : Type} {lookup lookup' : Lookup} {o : Options}

/-- Two lookups answer alike for some names, as long as only these were asked for. -/
def Agree (ns : List Name) (lookup lookup' : Lookup) : Prop :=
  ∀ asked, asked ⊆ ns → ∀ n ∈ ns, lookup asked n = lookup' asked n

/-- Two computations do the same and ask for some names only. -/
def Alike (ns : List Name) (x y : Asking α) : Prop :=
  ∀ s, s ⊆ ns → after x s = after y s ∧ (after x s).2 ⊆ ns

lemma sequential_alike (ns : List Name) : Sequential (Alike ns) where
  pure a := fun s hs => ⟨rfl, hs⟩
  bind := by
    intro α β x y f g hx hf s hs
    obtain ⟨hxy, hs'⟩ := hx s hs
    rcases h : after x s with ⟨e | a, s'⟩
    · rw [h] at hxy hs'
      rw [after_bind_error h, after_bind_error hxy.symm]
      exact ⟨rfl, hs'⟩
    · rw [h] at hxy hs'
      rw [after_bind_ok h, after_bind_ok hxy.symm]
      exact hf a s' hs'

lemma names_eq (ts : List Term) :
    ts.flatMap Term.names = (ts.flatMap Term.vars).map Varspec.name := by
  rw [List.map_flatMap]
  refine List.flatMap_congr fun x _ => ?_
  cases x <;> rfl

/-- **Lookups that agree** on the names that terms have lead to the same end. -/
theorem run_terms_congr {ts : List Term} (h : Agree (ts.flatMap Term.names) lookup lookup')
    (o : Options) : run (terms lookup o ts) = run (terms lookup' o ts) := by
  have hvar : ∀ op, ∀ v ∈ ts.flatMap Term.vars, Alike (ts.flatMap Term.names)
      (variableUnits lookup o op v) (variableUnits lookup' o op v) := by
    intro op v hv s hs
    have hn : v.name ∈ ts.flatMap Term.names := by
      rw [names_eq]
      exact List.mem_map_of_mem hv
    rw [after_variableUnits, after_variableUnits, h s hs _ hn]
    exact ⟨rfl, List.cons_subset.mpr ⟨hn, hs⟩⟩
  rw [run_eq, run_eq, ((sequential_alike _).terms hvar [] (List.nil_subset _)).1]

end Expansion

namespace Template

open Expansion

/-- Bindings are looked up, and nothing else is done with them. -/
lemma expand_eq {b : Bindings} {lookup : Lookup} (h : b.lookup = .ok lookup) (t : Template)
    (o : Options) : t.expand b o = run (Expansion.terms lookup o t.terms) := by
  simp only [expand, h]

/-- **The names of a template** are what it depends on. No name is there twice; an expansion that
gives a text has asked for these names and no others, first for the first one and so on; and lookups
that agree on them lead to the same end, whatever they answer elsewhere. Whatever a template is
expanded with, it is expanded with the lookup of it. -/
theorem variableNames_exact (t : Template) :
    t.variableNames.Nodup ∧
      (∀ lookup o x, (run (Expansion.terms lookup o t.terms)).result = .ok x →
        FirstUses (run (Expansion.terms lookup o t.terms)).asked t.variableNames) ∧
      (∀ lookup lookup' o, Agree t.variableNames lookup lookup' →
        run (Expansion.terms lookup o t.terms) = run (Expansion.terms lookup' o t.terms)) ∧
      ∀ b lookup o, b.lookup = .ok lookup →
        t.expand b o = run (Expansion.terms lookup o t.terms) := by
  have hnames : FirstUses (t.terms.flatMap Term.names) t.variableNames := firstUses_eraseDups _
  refine ⟨hnames.nodup, ?_, ?_, fun b lookup o hb => expand_eq hb t o⟩
  · intro lookup o x hx
    rwa [asked_of_ok hx, ← names_eq]
  · intro lookup lookup' o h
    refine run_terms_congr (fun asked hasked n hn => ?_) o
    exact h asked (fun m hm => (hnames.1 m).mpr (hasked hm)) n ((hnames.1 n).mpr hn)

end Template

end UriTemplate

/-!
Lists of pairs that remember where each key first arrived: a later value for a key takes the place
of the earlier one, and a key that was absent goes to the end. Keys are compared by a test that may
take different keys for the same one; the key that arrived first is the one that is kept.
-/

namespace UriTemplate.Keyed

variable {κ α : Type} [BEq κ]

/-- Gives a key a value. -/
def put (k : κ) (v : α) : List (κ × α) → List (κ × α)
  | [] => [(k, v)]
  | (k', v') :: m => if k' == k then (k', v) :: m else (k', v') :: put k v m

/-- The pairs of a list in turn, each put. -/
def ofPairs (ps : List (κ × α)) : List (κ × α) := ps.foldl (fun m p => put p.1 p.2 m) []

/-- Leaves a key without a value. -/
def erase (k : κ) (m : List (κ × α)) : List (κ × α) := m.filter fun p => !(p.1 == k)

/-- No key is the same as a later one. -/
def Distinct (m : List (κ × α)) : Prop := (m.map Prod.fst).Pairwise fun a b => (a == b) = false

theorem distinct_nil : Distinct ([] : List (κ × α)) := List.Pairwise.nil

/-- Putting keeps the keys where they are, and adds an absent one at the end. -/
theorem keys_put (k : κ) (v : α) (m : List (κ × α)) :
    (put k v m).map Prod.fst =
      if m.any fun p => p.1 == k then m.map Prod.fst else m.map Prod.fst ++ [k] := by
  induction m with
  | nil => simp [put]
  | cons p m ih =>
    obtain ⟨k', v'⟩ := p
    by_cases h : (k' == k) = true
    · simp [put, h]
    · simp only [put, h, if_false, List.map_cons, ih, List.any_cons, Bool.false_or,
        Bool.false_eq_true]
      split <;> rfl

theorem distinct_put {k : κ} {v : α} {m : List (κ × α)} (h : Distinct m) :
    Distinct (put k v m) := by
  rw [Distinct, keys_put]
  split
  · exact h
  · rename_i hk
    refine List.pairwise_append.mpr ⟨h, List.pairwise_singleton _ _, ?_⟩
    intro a ha b hb
    obtain ⟨p, hp, rfl⟩ := List.mem_map.mp ha
    rw [List.mem_singleton.mp hb]
    exact Bool.eq_false_iff.mpr fun e => hk (List.any_eq_true.mpr ⟨p, hp, e⟩)

theorem distinct_erase {k : κ} {m : List (κ × α)} (h : Distinct m) : Distinct (erase k m) :=
  h.sublist (List.filter_sublist.map _)

end UriTemplate.Keyed

import UriTemplate.Proofs.Utf8

/-!
Where characters begin. The first octet of a character tells how many there are, and it is none of
those that continue one. So a text has the octets of no other text, and a character's octets that
stand among those of a text are those of a character of it, whatever stands around them.
-/

namespace UriTemplate.Utf8

/-- The octet continues a character, and none begins with it. -/
def Continues (b : UInt8) : Prop := 0x80 ≤ b.toNat ∧ b.toNat ≤ 0xBF

/-- How many octets a character has by its first one. -/
def width (b : UInt8) : Nat :=
  if b.toNat < 0x80 then 1 else if b.toNat < 0xE0 then 2 else if b.toNat < 0xF0 then 3 else 4

lemma continues_toUInt8 {n : Nat} (h : n < 0x40) : Continues (0x80 + n).toUInt8 := by
  rw [Continues, toNat_toUInt8 (by omega)]
  omega

lemma not_continues_toUInt8 {n : Nat} (h : n < 0x80 ∨ 0xC0 ≤ n) (hn : n < 256) :
    ¬ Continues n.toUInt8 := by
  rw [Continues, toNat_toUInt8 hn]
  omega

lemma width_toUInt8 {n : Nat} (hn : n < 256) : width n.toUInt8 =
    if n < 0x80 then 1 else if n < 0xE0 then 2 else if n < 0xF0 then 3 else 4 := by
  rw [width, toNat_toUInt8 hn]

/-- A first octet, and as many that continue as it says. -/
lemma encode_shape (c : CodePoint) : ∃ a bs, encode c = a :: bs ∧ ¬ Continues a ∧
    (∀ b ∈ bs, Continues b) ∧ bs.length + 1 = width a := by
  have hlt := c.isLt
  have hcontinues : ∀ n, Continues (0x80 + n % 0x40).toUInt8 :=
    fun n => continues_toUInt8 (Nat.mod_lt n (by decide))
  unfold encode
  dsimp only
  split_ifs with h1 h2 h3
  · refine ⟨_, _, rfl, not_continues_toUInt8 (by omega) (by omega), by simp, ?_⟩
    rw [width_toUInt8 (by omega), if_pos h1]
    rfl
  · refine ⟨_, _, rfl, not_continues_toUInt8 (by omega) (by omega), ?_, ?_⟩
    · simp only [List.forall_mem_cons, List.not_mem_nil, IsEmpty.forall_iff, implies_true,
        hcontinues, and_self]
    · rw [width_toUInt8 (by omega), if_neg (by omega), if_pos (by omega)]
      rfl
  · refine ⟨_, _, rfl, not_continues_toUInt8 (by omega) (by omega), ?_, ?_⟩
    · simp only [List.forall_mem_cons, List.not_mem_nil, IsEmpty.forall_iff, implies_true,
        hcontinues, and_self]
    · rw [width_toUInt8 (by omega), if_neg (by omega), if_neg (by omega), if_pos (by omega)]
      rfl
  · refine ⟨_, _, rfl, not_continues_toUInt8 (by omega) (by omega), ?_, ?_⟩
    · simp only [List.forall_mem_cons, List.not_mem_nil, IsEmpty.forall_iff, implies_true,
        hcontinues, and_self]
    · rw [width_toUInt8 (by omega), if_neg (by omega), if_neg (by omega), if_neg (by omega)]
      rfl

lemma toUInt8_inj {m n : Nat} (hm : m < 256) (hn : n < 256) : m.toUInt8 = n.toUInt8 ↔ m = n := by
  rw [← UInt8.toNat_inj, toNat_toUInt8 hm, toNat_toUInt8 hn]

/-- Surrogates included, no two code points have the same octets. -/
lemma encode_injective : Function.Injective encode := by
  intro c d h
  have hc := c.isLt
  have hd := d.isLt
  refine CodePoint.ext ?_
  unfold encode at h
  dsimp only at h
  split_ifs at h
  all_goals
    simp (disch := omega) only [List.cons.injEq, toUInt8_inj, reduceCtorEq, and_false,
      and_true] at h
  all_goals omega

/-- **A character at the front** is the only one there. -/
theorem encode_append_inj {c d : CodePoint} {s t : List UInt8} (h : encode c ++ s = encode d ++ t) :
    c = d ∧ s = t := by
  obtain ⟨a, bs, hc, -, -, hbs⟩ := encode_shape c
  obtain ⟨a', bs', hd, -, -, hbs'⟩ := encode_shape d
  have ha : a = a' := by
    rw [hc, hd] at h
    exact (List.cons.inj h).1
  have hlength : (encode c).length = (encode d).length := by
    rw [hc, hd, List.length_cons, List.length_cons, hbs, hbs', ha]
  obtain ⟨hencode, hrest⟩ := List.append_inj h hlength
  exact ⟨encode_injective hencode, hrest⟩

/-- **The octets of a text** are those of no other one. -/
theorem flatMap_encode_injective : Function.Injective fun s : Text => s.flatMap encode := by
  intro s t h
  dsimp only at h
  induction s generalizing t with
  | nil =>
    rcases t with _ | ⟨d, t⟩
    · rfl
    · simp [encode_ne_nil] at h
  | cons c s ih =>
    rcases t with _ | ⟨d, t⟩
    · simp [encode_ne_nil] at h
    · rw [List.flatMap_cons, List.flatMap_cons] at h
      obtain ⟨rfl, hrest⟩ := encode_append_inj h
      rw [ih hrest]

/-- **A character among the octets of a text** is a character of the text, and what stands before
and after it are texts too. -/
theorem exists_split {s : Text} {c : CodePoint} {xs ys : List UInt8}
    (h : s.flatMap encode = xs ++ (encode c ++ ys)) :
    ∃ u v, s = u ++ c :: v ∧ u.flatMap encode = xs ∧ v.flatMap encode = ys := by
  induction s generalizing xs with
  | nil =>
    have hnil := (List.append_eq_nil_iff.mp (List.append_eq_nil_iff.mp h.symm).2).1
    exact absurd hnil (encode_ne_nil c)
  | cons d s ih =>
    rw [List.flatMap_cons] at h
    rcases xs with _ | ⟨x, xs⟩
    · obtain ⟨rfl, hrest⟩ := encode_append_inj h
      exact ⟨[], s, rfl, rfl, hrest⟩
    · rcases List.append_eq_append_iff.mp h with ⟨w, hx, hw⟩ | ⟨w, hd, hw⟩
      · obtain ⟨u, v, rfl, hu, hv⟩ := ih hw
        exact ⟨d :: u, v, rfl, by rw [List.flatMap_cons, hu, hx], hv⟩
      · rcases w with _ | ⟨b, w⟩
        · have hnext : s.flatMap encode = [] ++ (encode c ++ ys) := hw.symm
          obtain ⟨u, v, rfl, hu, hv⟩ := ih hnext
          refine ⟨d :: u, v, rfl, ?_, hv⟩
          rw [List.flatMap_cons, hu, hd, List.append_nil, List.append_nil]
        · -- the octet would both continue one character and begin another
          obtain ⟨a, bs, hc, ha, -, -⟩ := encode_shape c
          obtain ⟨a', bs', hd', -, hbs', -⟩ := encode_shape d
          rw [hd', List.cons_append] at hd
          rw [hc, List.cons_append, List.cons_append] at hw
          have hb : b ∈ bs' := by simp [(List.cons.inj hd).2]
          exact absurd ((List.cons.inj hw).1 ▸ hbs' b hb) ha

end UriTemplate.Utf8

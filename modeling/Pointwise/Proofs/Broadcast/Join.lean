import Pointwise.Proofs.Broadcast.Shapes

/-!
# The common shape as a least upper bound

Shapes are ordered by what they stretch to. The common shape of several shapes is the least one above
all of them, so that neither their order nor their grouping matters.
-/

namespace Pointwise.Broadcast

/-- Whether a shape stretches to another one, aligned at their last axes. -/
structure Below (s t : List Nat) : Prop where
  length_le : s.length ≤ t.length
  stretches : ∀ k, Stretches (dim s k) (dim t k)

/-- Whether at each axis all lengths but 1 are the same. -/
def Agree (ss : List (List Nat)) : Prop :=
  ∀ k, ∀ s ∈ ss, ∀ t ∈ ss, dim s k ≠ 1 → dim t k ≠ 1 → dim s k = dim t k

variable {ss ts : List (List Nat)} {s t u r : List Nat}

/-! ## The order -/

theorem Below.refl (s : List Nat) : Below s s := ⟨Nat.le_refl _, fun _ => .inr rfl⟩

theorem Below.antisymm (hst : Below s t) (hts : Below t s) : s = t := by
  refine eq_of_dim (Nat.le_antisymm hst.length_le hts.length_le) fun k => ?_
  have hs := hst.stretches k
  have ht := hts.stretches k
  unfold Stretches at hs ht
  omega

theorem below_nil (u : List Nat) : Below [] u :=
  ⟨Nat.zero_le _, fun k => .inl (dim_nil k)⟩

theorem IsJoin.below (h : IsJoin ss r) (hu : ∀ s ∈ ss, Below s u) : Below r u where
  length_le := by
    rcases h.rank with rfl | ⟨s, hs, hlength⟩
    · exact Nat.zero_le _
    · exact hlength ▸ (hu s hs).length_le
  stretches k := by
    rcases h.attained k with hone | ⟨s, hs, hdim⟩
    · exact .inl hone
    · exact hdim ▸ (hu s hs).stretches k

theorem exists_isJoin_of_bound (h : ∀ s ∈ ss, Below s u) : ∃ r, IsJoin ss r := by
  obtain ⟨r, hr⟩ := exists_shapes_of_bound fun s hs => (h s hs).stretches
  exact ⟨r, isJoin_of_shapes hr⟩

theorem Below.trans (hst : Below s t) (htu : Below t u) : Below s u where
  length_le := Nat.le_trans hst.length_le htu.length_le
  stretches k := by
    have hs := hst.stretches k
    have ht := htu.stretches k
    unfold Stretches at hs ht ⊢
    omega

theorem isJoin_iff : IsJoin ss r ↔ ∀ u, (∀ s ∈ ss, Below s u) ↔ Below r u := by
  constructor
  · intro h u
    refine ⟨h.below, fun hu s hs => ?_⟩
    exact Below.trans ⟨h.length_le s hs, h.stretches s hs⟩ hu
  · intro h
    obtain ⟨j, hj⟩ := exists_isJoin_of_bound ((h r).2 (.refl r))
    have habove : Below r j := (h j).1 fun s hs => ⟨hj.length_le s hs, hj.stretches s hs⟩
    rwa [habove.antisymm (hj.below ((h r).2 (.refl r)))]

/-! ## Shapes that have a common one -/

/-- The length at an axis that is not 1, if there is one. -/
def common (ss : List (List Nat)) (k : Nat) : Nat :=
  ((ss.map (dim · k)).find? (· ≠ 1)).getD 1

theorem Agree.common_eq (h : Agree ss) {k : Nat} (hs : s ∈ ss) (hone : dim s k ≠ 1) :
    common ss k = dim s k := by
  unfold common
  cases hfind : (ss.map (dim · k)).find? (· ≠ 1) with
  | none =>
    rw [List.find?_eq_none] at hfind
    exact absurd (hfind _ (List.mem_map_of_mem hs)) (by simpa using hone)
  | some d =>
    obtain ⟨t, ht, rfl⟩ := List.mem_map.1 (List.mem_of_find?_eq_some hfind)
    have hd : dim t k ≠ 1 := by simpa using List.find?_some hfind
    exact h k t ht s hs hd hone

theorem dim_reverse_map (f : Nat → Nat) {n k : Nat} (hk : k < n) :
    dim ((List.range n).map f).reverse k = f k := by
  simp [dim, List.getD_eq_getElem?_getD, hk]

theorem Agree.below (h : Agree ss) (hs : s ∈ ss) :
    Below s ((List.range (maxRank ss)).map (common ss)).reverse where
  length_le := by simpa using length_le_maxRank hs
  stretches k := by
    by_cases hone : dim s k = 1
    · exact .inl hone
    · have hk : k < s.length := Nat.lt_of_not_le fun hle => hone (dim_of_length_le hle)
      rw [dim_reverse_map _ (Nat.lt_of_lt_of_le hk (length_le_maxRank hs)), h.common_eq hs hone]
      exact .inr rfl

theorem exists_isJoin_iff : (∃ r, IsJoin ss r) ↔ Agree ss := by
  constructor
  · rintro ⟨r, hr⟩ k s hs t ht hsone htone
    have hsr := hr.stretches s hs k
    have htr := hr.stretches t ht k
    unfold Stretches at hsr htr
    omega
  · intro h
    exact exists_isJoin_of_bound fun s hs => h.below hs

/-! ## Order and grouping -/

theorem isJoin_congr (h : ∀ s, s ≠ [] → (s ∈ ss ↔ s ∈ ts)) : IsJoin ss r ↔ IsJoin ts r := by
  have hbounds : ∀ u, (∀ s ∈ ss, Below s u) ↔ ∀ s ∈ ts, Below s u := by
    intro u
    constructor
    all_goals
      intro hu s hs
      by_cases hnil : s = []
      · exact hnil ▸ below_nil u
    · exact hu s ((h s hnil).2 hs)
    · exact hu s ((h s hnil).1 hs)
  simp only [isJoin_iff, hbounds]

theorem isJoin_append :
    IsJoin (ss ++ ts) r ↔ ∃ s, IsJoin ss s ∧ IsJoin (s :: ts) r := by
  have hgroup : ∀ {s}, IsJoin ss s → (IsJoin (ss ++ ts) r ↔ IsJoin (s :: ts) r) := by
    intro s hs
    simp only [isJoin_iff, List.forall_mem_append, List.forall_mem_cons, isJoin_iff.1 hs]
  constructor
  · intro h
    have hbound := (isJoin_iff.1 h r).2 (.refl r)
    obtain ⟨s, hs⟩ := exists_isJoin_of_bound (List.forall_mem_append.1 hbound).1
    exact ⟨s, hs, (hgroup hs).1 h⟩
  · rintro ⟨s, hs, h⟩
    exact (hgroup hs).2 h

/--
Shapes can be broadcast exactly if at each axis, counted from the last, all lengths but 1 are the
same. The common shape has the rank of the longest one, and at each axis that length, or 1 if there
is none. It depends only on which shapes with axes are given, so not on their order, on repetitions
or on shapes of rank 0, and it can be found in two steps.
-/
theorem shapes_join (ss : List (List Nat)) :
    ((∃ r, shapes ss = .ok r) ↔ Agree ss) ∧
    (∀ r, shapes ss = .ok r →
      (∀ s ∈ ss, s.length ≤ r.length) ∧ (r = [] ∨ ∃ s ∈ ss, s.length = r.length) ∧
        ∀ k, (∀ s ∈ ss, dim s k ≠ 1 → dim r k = dim s k) ∧
          ((∀ s ∈ ss, dim s k = 1) → dim r k = 1)) ∧
    (∀ ts, (∀ s, s ≠ [] → (s ∈ ss ↔ s ∈ ts)) →
      ∀ r, shapes ss = .ok r ↔ shapes ts = .ok r) ∧
    ∀ ts r, shapes (ss ++ ts) = .ok r ↔
      ∃ s, shapes ss = .ok s ∧ shapes (s :: ts) = .ok r := by
  simp only [shapes_eq_ok]
  refine ⟨exists_isJoin_iff, fun r hr => ⟨hr.length_le, hr.rank, fun k => ⟨?_, ?_⟩⟩,
    fun ts h r => isJoin_congr h, fun ts r => isJoin_append⟩
  · intro s hs hone
    exact ((hr.stretches s hs k).resolve_left hone).symm
  · intro hones
    rcases hr.attained k with hone | ⟨s, hs, hdim⟩
    · exact hone
    · rw [← hdim, hones s hs]

theorem shapes_join_empty_axis :
    Agree [[3, 1], [], [1, 0]] ∧ shapes [[3, 1], [], [1, 0]] = .ok [3, 0] ∧
      shapes [[1, 0], [3, 1], [1, 0]] = .ok [3, 0] ∧
      (∃ s, shapes [[3, 1], []] = .ok s ∧ shapes [s, [1, 0]] = .ok [3, 0]) ∧
      ¬Agree [[0], [2]] := by
  have hshapes : shapes [[3, 1], [], [1, 0]] = .ok [3, 0] := rfl
  obtain ⟨hagree, -, hcongr, happend⟩ := shapes_join [[3, 1], [], [1, 0]]
  have hsame : ∀ s : List Nat, s ≠ [] →
      (s ∈ [[3, 1], [], [1, 0]] ↔ s ∈ [[1, 0], [3, 1], [1, 0]]) := by
    intro s hs
    simp [hs, or_comm]
  refine ⟨hagree.1 ⟨_, hshapes⟩, hshapes, (hcongr _ hsame _).1 hshapes, ?_, fun h => ?_⟩
  · exact ((shapes_join [[3, 1], []]).2.2.2 [[1, 0]] _).1 hshapes
  · obtain ⟨r, hr⟩ := (shapes_join [[0], [2]]).1.2 h
    cases hr

end Pointwise.Broadcast

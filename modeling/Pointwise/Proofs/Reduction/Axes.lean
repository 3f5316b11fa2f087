import Pointwise.Proofs.Reduction.Lines

/-!
# Several axes

A reduction along several axes takes the least one first, and counts the others as they are counted
once that one is gone. The order in which the axes are named does not matter.
-/

namespace Pointwise

open Stateful

/-! ## Removed positions -/

/-- What is left of a list without the listed positions. -/
def removeAll {α : Type} (positions : List Nat) (l : List α) : List α :=
  (l.zipIdx.filter fun (_, i) => i ∉ positions).map Prod.fst

/-- The position of the `i`-th element that is left once the one at `k` is gone. -/
def skip (k i : Nat) : Nat := if i < k then i else i + 1

theorem skip_ne (k i : Nat) : skip k i ≠ k := by
  unfold skip
  split <;> omega

theorem skip_inj {k i j : Nat} : skip k i = skip k j ↔ i = j := by
  unfold skip
  constructor
  · intro h
    split at h <;> split at h <;> omega
  · rintro rfl
    rfl

/-- Where the element at `i` is once the one at `k` is gone. -/
def unskip (k i : Nat) : Nat := if k < i then i - 1 else i

theorem skip_unskip {k i : Nat} (h : i ≠ k) : skip k (unskip k i) = i := by
  unfold skip unskip
  split <;> split <;> omega

theorem unskip_lt {k i n : Nat} (hk : k < n + 1) (hi : i < n + 1) (h : i ≠ k) : unskip k i < n := by
  unfold unskip
  split <;> omega

section

variable {α : Type} {k : Nat} {ks : List Nat}

theorem map_skip_unskip (hk : k ∉ ks) : (ks.map (unskip k)).map (skip k) = ks := by
  rw [List.map_map]
  conv => rhs; rw [← List.map_id ks]
  refine List.map_congr_left fun i hi => skip_unskip ?_
  rintro rfl
  exact hk hi

theorem map_unskip_of_lt (hks : ∀ i ∈ ks, k < i) : ks.map (unskip k) = ks.map (· - 1) :=
  List.map_congr_left fun i hi => if_pos (hks i hi)

theorem map_skip_pred (hks : ∀ i ∈ ks, k < i) : (ks.map (· - 1)).map (skip k) = ks := by
  rw [← map_unskip_of_lt hks, map_skip_unskip fun hk => absurd (hks k hk) (Nat.lt_irrefl k)]

theorem removeAll_nil (l : List α) : removeAll [] l = l := by
  unfold removeAll
  simp

theorem zipIdx_removeAt (k n : Nat) (l : List α) :
    ((removeAt k l).zipIdx n).map (fun p => (p.1, skip (n + k) p.2)) =
      (l.zipIdx n).filter (·.2 != n + k) := by
  induction l generalizing k n with
  | nil => simp [removeAt]
  | cons x l ih =>
    cases k with
    | zero =>
      -- All positions behind the first one are one greater.
      rw [removeAt_zero, List.zipIdx_cons, List.filter_cons_of_neg (by simp), List.zipIdx_succ]
      have hbehind : ∀ p ∈ l.zipIdx n, n ≤ p.2 := fun p hp => List.le_snd_of_mem_zipIdx hp
      have hkept : ∀ p ∈ (l.zipIdx n).map fun p => (p.1, p.2 + 1), (p.2 != n + 0) = true := by
        intro p hp
        obtain ⟨q, hq, rfl⟩ := List.mem_map.1 hp
        have := hbehind q hq
        simp
        omega
      refine Eq.trans ?_ (List.filter_eq_self.2 hkept).symm
      refine List.map_congr_left fun p hp => ?_
      have := hbehind p hp
      simp [skip]
      omega
    | succ k =>
      rw [removeAt_succ, List.zipIdx_cons, List.zipIdx_cons, List.map_cons,
        List.filter_cons_of_pos (by simp)]
      have hrest := ih k (n + 1)
      rw [show n + 1 + k = n + (k + 1) by omega] at hrest
      rw [hrest]
      simp [skip]

/-- Once a position is removed, the others are counted in what is left. -/
theorem removeAll_skip (k : Nat) (ks : List Nat) (l : List α) :
    removeAll (k :: ks.map (skip k)) l = removeAll ks (removeAt k l) := by
  have hzip := zipIdx_removeAt k 0 l
  rw [Nat.zero_add] at hzip
  have hmem (i : Nat) : skip k i ∈ k :: ks.map (skip k) ↔ i ∈ ks := by
    rw [List.mem_cons, List.mem_map]
    simp [skip_ne, skip_inj]
  have hsplit : (l.zipIdx.filter fun (_, i) => i ∉ k :: ks.map (skip k)) =
      (l.zipIdx.filter (·.2 != k)).filter fun (_, i) => i ∉ k :: ks.map (skip k) := by
    rw [List.filter_filter]
    refine List.filter_congr fun p _ => ?_
    by_cases hp : p.2 = k <;> simp [hp]
  unfold removeAll
  rw [hsplit, ← hzip, List.filter_map, List.map_map]
  refine congrArg _ (List.filter_congr fun p _ => ?_)
  exact decide_eq_decide.2 (hmem p.2).not

theorem removeAll_cons (hks : ∀ i ∈ ks, k < i) (l : List α) :
    removeAll (k :: ks) l = removeAll (ks.map (· - 1)) (removeAt k l) := by
  rw [← removeAll_skip, map_skip_pred hks]

end

namespace Reducer

variable {σ : Type} {r : Reducer σ} {a out : NDArray} {k : Nat} {acc : DType}
  {initial : Option Scalar} {s : σ}

/-! ## Shapes -/

theorem ensures_sweep (hout : HoldsTotals a k acc out) (l : List (List Nat)) :
    Ensures (r.sweep a k l out) s (fun out' _ => HoldsTotals a k acc out') (fun _ _ => True) := by
  unfold sweep
  apply Ensures.foldlM (fun _ out' _ => HoldsTotals a k acc out') ?_ hout
  intro index l out' t hout'
  exact (Ensures.trivial _ _).bind fun v t _ => Ensures.pure hout'.writeAt

theorem holdsTotals_reduceAxis (h : answer (r.reduceAxis a k acc initial) s = .ok out) :
    HoldsTotals a k acc out := by
  unfold reduceAxis at h
  dsimp only at h
  split at h
  next seed _ => exact (ensures_sweep (holdsTotals_full a k acc seed) _).of_ok h
  next =>
    split at h
    · cases h
      exact ⟨NDArray.contiguous_zeros .., rfl, rfl⟩
    · split at h
      · cases h
      · exact (ensures_sweep (firstSlice_spec a k acc).1 _).of_ok h

theorem shape_reduceAxis (h : answer (r.reduceAxis a k acc initial) s = .ok out) :
    out.shape = removeAt k a.shape ∧ out.dtype = acc :=
  ⟨(holdsTotals_reduceAxis h).shape, (holdsTotals_reduceAxis h).dtype⟩

theorem rank_reduceAxis (hk : k < a.rank) (h : answer (r.reduceAxis a k acc initial) s = .ok out) :
    out.rank + 1 = a.rank := by
  unfold NDArray.rank at hk ⊢
  rw [(shape_reduceAxis h).1, length_removeAt hk]

/-! ## The least axis first -/

/-- Axes of an array in any order, and the same axes in increasing order. -/
structure Sorts (axes ks : List Nat) (rank : Nat) : Prop where
  perm : axes.Perm ks
  sorted : ks.Pairwise (· < ·)
  range : ∀ i ∈ ks, i < rank

namespace Sorts

variable {axes ks : List Nat} {rank : Nat}

theorem least_lt (h : Sorts axes (k :: ks) rank) {i : Nat} (hi : i ∈ ks) : k < i :=
  List.rel_of_pairwise_cons h.sorted hi

theorem min? (h : Sorts axes (k :: ks) rank) : axes.min? = some k := by
  rw [List.min?_eq_some_iff]
  refine ⟨h.perm.mem_iff.2 (.head _), fun i hi => ?_⟩
  rcases List.mem_cons.1 (h.perm.mem_iff.1 hi) with rfl | hi
  · exact Nat.le_refl _
  · exact Nat.le_of_lt (h.least_lt hi)

theorem shift (h : Sorts axes (k :: ks) (rank + 1)) :
    Sorts (shiftAxes k axes) (ks.map (· - 1)) rank where
  perm := by
    have hne : ∀ i ∈ ks, (i != k) = true := by
      intro i hi
      have hlt := h.least_lt hi
      simp
      omega
    have hrest : shiftAxes k (k :: ks) = ks.map (· - 1) := by
      unfold shiftAxes
      rw [List.filter_cons_of_neg (by simp), List.filter_eq_self.2 hne]
    rw [← hrest]
    exact (h.perm.filter _).map _
  sorted := by
    rw [List.pairwise_map]
    apply (List.pairwise_cons.1 h.sorted).2.imp_of_mem
    intro i j hi hj hij
    have hi' := h.least_lt hi
    omega
  range := by
    intro i hi
    obtain ⟨j, hj, rfl⟩ := List.mem_map.1 hi
    have hkj := h.least_lt hj
    have hrange := h.range j (.tail _ hj)
    omega

theorem exists_sorts (hdistinct : axes.Nodup) (hrange : ∀ i ∈ axes, i < rank) :
    ∃ ks, Sorts axes ks rank := by
  have hperm := List.mergeSort_perm axes (· ≤ ·)
  refine ⟨axes.mergeSort (· ≤ ·), hperm.symm, ?_, fun i hi => hrange i (hperm.mem_iff.1 hi)⟩
  have hle : (axes.mergeSort (· ≤ ·)).Pairwise fun i j => decide (i ≤ j) = true :=
    List.pairwise_mergeSort (by simp; omega) (by simp; omega) axes
  have hne : (axes.mergeSort (· ≤ ·)).Pairwise (· ≠ ·) := hperm.nodup_iff.2 hdistinct
  refine (hle.and hne).imp ?_
  rintro i j ⟨hij, hne⟩
  simp at hij
  omega

theorem exists_sorts_cons (hne : axes ≠ []) (hdistinct : axes.Nodup)
    (hrange : ∀ i ∈ axes, i < rank) : ∃ k ks, Sorts axes (k :: ks) rank := by
  obtain ⟨ks, hks⟩ := exists_sorts hdistinct hrange
  cases ks with
  | nil => exact absurd (List.perm_nil.1 hks.perm) hne
  | cons k ks => exact ⟨k, ks, hks⟩

theorem exists_sorts_of_valid {ks : List Int} (h : Axis.Valid rank (.several ks)) :
    ∃ k rest, Sorts (ks.map Int.toNat) (k :: rest) rank := by
  obtain ⟨hne, hdistinct, hrange⟩ := h
  refine exists_sorts_cons (by simpa using hne)
    ((Axis.nodup_toNat fun k hk => (hrange k hk).1).2 hdistinct) fun i hi => ?_
  obtain ⟨k, hk, rfl⟩ := List.mem_map.1 hi
  have hk' := hrange k hk
  omega

theorem all (rank : Nat) : Sorts (List.range rank) (List.range rank) rank :=
  ⟨List.Perm.refl _, List.pairwise_lt_range, fun _ => List.mem_range.1⟩

theorem exists_all (h : rank ≠ 0) : ∃ k ks, Sorts (List.range rank) (k :: ks) rank :=
  exists_sorts_cons (by simpa using h) List.nodup_range fun _ => List.mem_range.1

theorem eq_of_rank_one (h : Sorts axes ks 1) (hks : ks ≠ []) : ks = [0] := by
  rcases ks with _ | ⟨k, _ | ⟨k', rest⟩⟩
  · exact absurd rfl hks
  · have hk := h.range k (.head _)
    obtain rfl : k = 0 := by omega
    rfl
  · have hlt := h.least_lt (.head _)
    have hk' := h.range k' (.tail _ (.head _))
    omega

theorem one_lt_rank (h : Sorts axes ks rank) (hlength : 2 ≤ ks.length) : 1 < rank := by
  rcases ks with _ | ⟨k, _ | ⟨k', rest⟩⟩
  · simp at hlength
  · simp at hlength
  · have hlt := h.least_lt (.head _)
    have hk' := h.range k' (.tail _ (.head _))
    omega

end Sorts

theorem reduceAxes_of_sorts {axes ks : List Nat} {rank : Nat} (h : Sorts axes (k :: ks) rank) :
    r.reduceAxes a axes acc initial = (do
      let out ← r.reduceAxis a k acc initial
      if ks = [] then return .array out
      else if out.rank = 1 then return .scalar (← r.reduceLine out acc none)
      else r.reduceAxes out (shiftAxes k axes) acc none) := by
  have hlength : axes.length = 1 ↔ ks = [] := by
    rw [h.perm.length_eq, List.length_cons, Nat.add_eq_right, List.length_eq_zero_iff]
  rw [reduceAxes]
  split
  next hnone =>
    rw [h.min?] at hnone
    cases hnone
  next least hleast =>
    obtain rfl : k = least := Option.some.inj (h.min?.symm.trans hleast)
    simp only [hlength]

end Reducer

end Pointwise

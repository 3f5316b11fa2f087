import Mathlib.Data.List.Perm.Subperm
import Mathlib.Data.Multiset.Bind
import Mathlib.Data.Multiset.Range
import Mathlib.Data.Set.Function
import Pointwise.NDArray.Operation
import Pointwise.Proofs.NDArray.Store

/-!
# Arrays without gaps

Such an array has the axes of a row-major one, in some order. The order of the axes does not change
how far the elements are from the first one, so they are at all multiples of the element size.
-/

namespace Pointwise

open NDArray (inBounds)

/-! ## The distances of all elements -/

/-- How far from the first element one is, in bytes. -/
def distance (strides : List Int) (index : List Nat) : Int :=
  (List.zipWith (fun (i : Nat) (s : Int) => i * s) index strides).sum

/-- The distances of all elements, for the lengths and strides of the axes. -/
def distances : List (Nat × Int) → Multiset Int
  | [] => {0}
  | (d, s) :: axes => (Multiset.range d).bind fun i => (distances axes).map (i * s + ·)

theorem distances_perm {axes axes' : List (Nat × Int)} (h : axes.Perm axes') :
    distances axes = distances axes' := by
  induction h with
  | nil => rfl
  | cons axis _ ih => simp only [distances, ih]
  | swap axis axis' axes =>
    -- The two outer axes are counted through in the other order.
    simp only [distances, Multiset.map_bind, Multiset.map_map, Function.comp_def]
    rw [Multiset.bind_bind]
    simp only [Int.add_left_comm]
  | trans _ _ ih ih' => exact ih.trans ih'

theorem map_distance_coordinates {shape : List Nat} {strides : List Int}
    (h : strides.length = shape.length) :
    (coordinates shape : Multiset (List Nat)).map (distance strides) =
      distances (shape.zip strides) := by
  induction shape generalizing strides with
  | nil => rfl
  | cons d ds ih =>
    cases strides with
    | nil => cases h
    | cons s ss =>
      rw [List.zip_cons_cons, distances, ← ih (Nat.succ_inj.1 h), coordinates, ← Multiset.coe_bind,
        Multiset.map_bind]
      refine Multiset.bind_congr fun i _ => ?_
      rw [← Multiset.map_coe, Multiset.map_map, Multiset.map_map]
      rfl

theorem flatMap_range_blocks (d n : Nat) :
    ((List.range d).flatMap fun i => (List.range n).map (i * n + ·)) = List.range (d * n) := by
  induction d with
  | zero => simp
  | succ d ih =>
    rw [List.range_succ, List.flatMap_append, ih, List.flatMap_singleton, Nat.succ_mul,
      List.range_add]

theorem map_flatIndex_indices (shape : List Nat) :
    (indices shape).map (flatIndex shape) = List.range (size shape) := by
  rw [indices_eq_coordinates]
  induction shape with
  | nil => rfl
  | cons d ds ih =>
    have hblock (i : Nat) : ((coordinates ds).map (i :: ·)).map (flatIndex (d :: ds)) =
        (List.range (size ds)).map (i * size ds + ·) := by
      rw [← ih, List.map_map, List.map_map]
      rfl
    rw [coordinates, List.map_flatMap, size_cons, ← flatMap_range_blocks]
    simp only [hblock]

theorem distances_rowMajorStrides (itemsize : Nat) (shape : List Nat) :
    distances (shape.zip (rowMajorStrides itemsize shape)) =
      (Multiset.range (size shape)).map fun n => ((itemsize * n : Nat) : Int) := by
  have hplaces : (coordinates shape : Multiset (List Nat)).map (flatIndex shape) =
      Multiset.range (size shape) := by
    rw [← indices_eq_coordinates, Multiset.map_coe, map_flatIndex_indices]
    rfl
  rw [← map_distance_coordinates (length_rowMajorStrides itemsize shape), ← hplaces,
    Multiset.map_map]
  exact Multiset.map_congr rfl fun index hindex => sum_rowMajorStrides (mem_coordinates.1 hindex)

theorem size_perm {shape shape' : List Nat} (h : shape.Perm shape') : size shape = size shape' :=
  h.foldr_eq _

/-! ## Permutations of the axes -/

theorem nodup_eraseDups (l : List Nat) : l.eraseDups.Nodup := by
  cases l with
  | nil => simp
  | cons x l =>
    rw [List.eraseDups_cons, List.nodup_cons]
    refine ⟨?_, nodup_eraseDups (l.filter fun y => !y == x)⟩
    simp [List.mem_eraseDups]
termination_by l.length
decreasing_by exact Nat.lt_succ_of_le (List.length_filter_le ..)

theorem perm_of_isPermutation {rank : Nat} {axes : List Nat}
    (h : NDArray.isPermutation rank axes = true) : axes.Perm (List.range rank) := by
  unfold NDArray.isPermutation at h
  simp only [Bool.and_eq_true, beq_iff_eq, List.all_eq_true, decide_eq_true_eq] at h
  obtain ⟨⟨hlength, hlt⟩, hdups⟩ := h
  have herased : axes.eraseDups.Perm axes :=
    (List.subperm_of_subset (nodup_eraseDups axes)
      fun k hk => List.mem_eraseDups.1 hk).perm_of_length_le hdups.ge
  have hnodup : axes.Nodup := herased.nodup_iff.1 (nodup_eraseDups axes)
  refine (List.subperm_of_subset hnodup fun k hk => ?_).perm_of_length_le ?_
  · exact List.mem_range.2 (hlt k hk)
  · rw [List.length_range, hlength]

theorem map_getD_range {α : Type} (l : List α) (x : α) :
    (List.range l.length).map (l.getD · x) = l := by
  apply List.ext_getElem
  · simp
  · intro k _ hk
    simp [hk]

/-! ## Arrays without gaps -/

namespace NDArray

variable {a b : NDArray} {i j : List Nat}

theorem byteOffset_eq_toNat (a : NDArray) (i : List Nat) :
    a.byteOffset i = (distance a.strides i).toNat := rfl

/-- The bytes are those of all elements and no others, in row-major order for some order of the
axes. -/
structure Gapless (a : NDArray) : Prop where
  length : a.strides.length = a.shape.length
  axes : ∃ shape : List Nat,
    (a.shape.zip a.strides).Perm (shape.zip (rowMajorStrides a.itemsize shape))
  size : a.data.size = a.itemsize * size a.shape

theorem Contiguous.gapless (h : a.Contiguous) : a.Gapless where
  length := by rw [h.strides, length_rowMajorStrides]
  axes := ⟨a.shape, by rw [h.strides]⟩
  size := h.size

namespace Gapless

theorem map_distance (h : a.Gapless) :
    (indices a.shape : Multiset (List Nat)).map (distance a.strides) =
      (Multiset.range (Pointwise.size a.shape)).map fun n => ((a.itemsize * n : Nat) : Int) := by
  obtain ⟨shape, hperm⟩ := h.axes
  have hshape := hperm.map Prod.fst
  rw [List.map_fst_zip h.length.ge, List.map_fst_zip (length_rowMajorStrides ..).ge] at hshape
  rw [indices_eq_coordinates, map_distance_coordinates h.length, distances_perm hperm,
    distances_rowMajorStrides, size_perm hshape]

theorem byteOffset_eq_distance (h : a.Gapless) (hi : inBounds a.shape i = true) :
    (a.byteOffset i : Int) = distance a.strides i := by
  have hmem : distance a.strides i ∈
      (indices a.shape : Multiset (List Nat)).map (distance a.strides) :=
    Multiset.mem_map_of_mem _ (mem_indices.2 hi)
  rw [h.map_distance, Multiset.mem_map] at hmem
  obtain ⟨n, -, hn⟩ := hmem
  rw [byteOffset_eq_toNat, ← hn, Int.toNat_natCast]

theorem map_byteOffset (h : a.Gapless) :
    ((indices a.shape).map a.byteOffset).Perm
      ((List.range (Pointwise.size a.shape)).map (a.itemsize * ·)) := by
  have hnat := congrArg (Multiset.map Int.toNat) h.map_distance
  rw [Multiset.map_map, Multiset.map_map] at hnat
  exact Multiset.coe_eq_coe.1 hnat

theorem bijOn_byteOffset (h : a.Gapless) :
    Set.BijOn a.byteOffset {i | inBounds a.shape i = true}
      {n | a.itemsize ∣ n ∧ n < a.data.size} := by
  have hperm := h.map_byteOffset
  have hmem (n : Nat) : n ∈ (indices a.shape).map a.byteOffset ↔
      a.itemsize ∣ n ∧ n < a.data.size := by
    rw [hperm.mem_iff, List.mem_map, h.size]
    constructor
    · rintro ⟨k, hk, rfl⟩
      exact ⟨⟨k, rfl⟩, Nat.mul_lt_mul_of_pos_left (List.mem_range.1 hk) a.itemsize_pos⟩
    · rintro ⟨⟨k, rfl⟩, hlt⟩
      exact ⟨k, List.mem_range.2 (Nat.lt_of_mul_lt_mul_left hlt), rfl⟩
  have hnodup : ((indices a.shape).map a.byteOffset).Nodup := by
    rw [hperm.nodup_iff]
    exact List.nodup_range.map fun k l hkl => Nat.eq_of_mul_eq_mul_left a.itemsize_pos hkl
  refine ⟨fun i hi => (hmem _).1 (List.mem_map_of_mem (mem_indices.2 hi)), fun i hi j hj => ?_,
    fun n hn => ?_⟩
  · exact List.inj_on_of_nodup_map hnodup (mem_indices.2 hi) (mem_indices.2 hj)
  · obtain ⟨i, hi, hin⟩ := List.mem_map.1 ((hmem n).2 hn)
    exact ⟨i, mem_indices.1 hi, hin⟩

theorem byteOffset_le (h : a.Gapless) (hi : inBounds a.shape i = true) :
    a.byteOffset i + a.itemsize ≤ a.data.size := by
  obtain ⟨⟨k, hk⟩, hlt⟩ := h.bijOn_byteOffset.mapsTo hi
  rw [hk, h.size] at hlt ⊢
  exact Nat.mul_le_mul_left a.itemsize (Nat.lt_of_mul_lt_mul_left hlt)

theorem apart (h : a.Gapless) (hi : inBounds a.shape i = true) (hj : inBounds a.shape j = true)
    (hne : i ≠ j) :
    a.byteOffset j + a.itemsize ≤ a.byteOffset i ∨
      a.byteOffset i + a.itemsize ≤ a.byteOffset j := by
  have hne' : a.byteOffset i ≠ a.byteOffset j := fun heq =>
    hne (h.bijOn_byteOffset.injOn hi hj heq)
  obtain ⟨⟨k, hk⟩, -⟩ := h.bijOn_byteOffset.mapsTo hi
  obtain ⟨⟨l, hl⟩, -⟩ := h.bijOn_byteOffset.mapsTo hj
  rw [hk, hl] at hne' ⊢
  rcases Nat.lt_or_gt_of_ne fun heq : k = l => hne' (by rw [heq]) with hlt | hgt
  · exact .inr (Nat.mul_le_mul_left a.itemsize hlt)
  · exact .inl (Nat.mul_le_mul_left a.itemsize hgt)

theorem separate (h : a.Gapless) : a.Separate := ⟨h.byteOffset_le, h.apart⟩

/-! ## What keeps an array without gaps -/

theorem put (h : a.Gapless) (i : List Nat) (v : Scalar) : (a.put i v).Gapless :=
  ⟨h.length, h.axes, size_put.trans h.size⟩

theorem transpose (h : a.Gapless) : a.transpose.Gapless where
  length := by simp [NDArray.transpose, h.length]
  axes := by
    obtain ⟨shape, hperm⟩ := h.axes
    refine ⟨shape, List.Perm.trans ?_ hperm⟩
    rw [NDArray.transpose, List.zip, ← List.reverse_zipWith h.length.symm]
    exact List.reverse_perm _
  size := h.size.trans (congrArg (a.itemsize * ·) (size_perm (List.reverse_perm _).symm))

theorem permuteAxes {axes : List Nat} (h : a.Gapless) (hb : a.permuteAxes axes = .ok b) :
    b.Gapless := by
  unfold NDArray.permuteAxes at hb
  split at hb
  case isFalse => cases hb
  case isTrue hperm =>
    cases hb
    replace hperm := perm_of_isPermutation hperm
    have hshape : (axes.map (a.shape.getD · 0)).Perm a.shape := by
      conv => rhs; rw [← map_getD_range a.shape 0]
      exact hperm.map _
    have hzip : a.shape.zip a.strides =
        (List.range a.rank).map fun k => (a.shape.getD k 0, a.strides.getD k 0) := by
      conv => lhs; rw [← map_getD_range a.shape 0, ← map_getD_range a.strides 0, h.length]
      exact List.zip_map'
    refine ⟨by simp, ?_, h.size.trans (congrArg (a.itemsize * ·) (size_perm hshape.symm))⟩
    obtain ⟨shape, haxes⟩ := h.axes
    refine ⟨shape, List.Perm.trans ?_ haxes⟩
    rw [hzip, List.zip_map']
    exact hperm.map _

end Gapless

end NDArray

end Pointwise

import Pointwise.Proofs.NDArray.MemoryOrder
import Pointwise.Proofs.Reduction.Axes

/-!
# Offsets of results

The three ways to compute an offset without a test at every axis give what the way with the test
gives. In a result without gaps the offset of a coordinate is its place in row-major order once the
reduced axis is gone, so that exactly the coordinates of a line share one.
-/

namespace Pointwise

open NDArray (inBounds)

/-! ## Two ways to the same offset -/

theorem map_zipIdx_getD {α β γ : Type} (f : α → β → γ) {l : List α} {ys : List β} (y : β)
    (h : l.length ≤ ys.length) :
    l.zipIdx.map (fun p => f p.1 (ys.getD p.2 y)) = List.zipWith f l ys := by
  apply List.ext_getElem
  · simpa using h
  · intro k hk hk'
    simp only [List.length_map, List.length_zipIdx] at hk
    have hys : k < ys.length := Nat.lt_of_lt_of_le hk h
    simp [hys]

theorem flatOffset_eq_totalSteps {axis : Nat} {itemsize : Int} {strides index : List Int}
    (haxis : axis < index.length) (hstrides : index.length ≤ strides.length + 1) :
    flatOffset strides itemsize index axis =
      totalSteps itemsize strides (removeAt axis index) := by
  have hlen := length_removeAt haxis
  have hzip := zipIdx_removeAt axis 0 index
  have hback (i : Nat) : (if skip axis i < axis then skip axis i else skip axis i - 1) = i := by
    unfold skip
    grind
  rw [Nat.zero_add] at hzip
  have hflat : flatOffset strides itemsize index axis =
      ((index.zipIdx.filter (·.2 != axis)).map fun p => elementSteps itemsize p.1
        (strides.getD (if p.2 < axis then p.2 else p.2 - 1) 0)).sum := rfl
  rw [hflat, totalSteps, ← map_zipIdx_getD (elementSteps itemsize) 0 (by omega), ← hzip,
    List.map_map]
  simp only [Function.comp_def, hback]

theorem offset_eq_flatOffset {axis : Nat} {itemsize : Int} {strides index : List Int}
    (haxis : axis < index.length) (hstrides : index.length ≤ strides.length + 1) :
    (AxisPlace.of index.length axis).offset itemsize strides index =
      flatOffset strides itemsize index axis := by
  rw [offset_eq_totalSteps rfl hstrides haxis, flatOffset_eq_totalSteps haxis hstrides]

/-! ## Coordinates that share an offset -/

theorem getElem?_removeAt {α : Type} (k n : Nat) (l : List α) :
    (removeAt k l)[n]? = l[skip k n]? := by
  unfold removeAt skip
  rw [List.getElem?_append, List.length_take, List.getElem?_take, List.getElem?_drop]
  grind

theorem removeAt_eq_iff {α : Type} {k : Nat} {l m : List α} :
    removeAt k l = removeAt k m ↔ ∀ n ≠ k, l[n]? = m[n]? := by
  constructor
  · intro h n hn
    rw [← skip_unskip hn, ← getElem?_removeAt, ← getElem?_removeAt, h]
  · intro h
    apply List.ext_getElem?
    intro n
    rw [getElem?_removeAt, getElem?_removeAt, h _ (skip_ne k n)]

/-! ## Results without gaps -/

/-- Where the total for a coordinate is kept in a result without gaps. -/
def totalOffset (itemsize axis : Nat) (shape index : List Nat) : Int :=
  (AxisPlace.of shape.length axis).offset itemsize (rowMajorStrides itemsize (removeAt axis shape))
    (index.map Int.ofNat)

/--
Wherever the reduced axis lies, and for any strides and element size, the offset is the one that is
computed axis by axis. In a result without gaps the offset of a coordinate is its place among the
coordinates of the result, and two coordinates share an offset exactly if they differ at most along
the reduced axis.
-/
theorem offset_addresses_result {rank axis itemsize : Nat} (haxis : axis < rank)
    (hpos : 0 < itemsize) :
    (∀ strides index : List Int, rank ≤ strides.length + 1 → index.length = rank →
      (AxisPlace.of rank axis).offset itemsize strides index =
        flatOffset strides itemsize index axis) ∧
    ∀ shape : List Nat, shape.length = rank →
      (∀ index, inBounds shape index = true →
        ∃ r < size (removeAt axis shape), totalOffset itemsize axis shape index = r ∧
          (indices (removeAt axis shape))[r]? = some (removeAt axis index)) ∧
      ∀ index index', inBounds shape index = true → inBounds shape index' = true →
        (totalOffset itemsize axis shape index = totalOffset itemsize axis shape index' ↔
          ∀ k ≠ axis, index[k]? = index'[k]?) := by
  refine ⟨?ways, fun shape hshape => ⟨?place, ?shared⟩⟩
  case ways =>
    intro strides index hstrides hindex
    subst hindex
    exact offset_eq_flatOffset haxis hstrides
  all_goals subst hshape
  case place =>
    intro index hindex
    have hremoved := inBounds_removeAt haxis hindex
    exact ⟨_, flatIndex_lt hremoved, offset_rowMajorStrides hpos haxis hindex,
      getElem?_indices.2 ⟨hremoved, rfl⟩⟩
  case shared =>
    intro index index' hindex hindex'
    have hremoved := inBounds_removeAt haxis hindex
    have hremoved' := inBounds_removeAt haxis hindex'
    unfold totalOffset
    rw [offset_rowMajorStrides hpos haxis hindex, offset_rowMajorStrides hpos haxis hindex',
      Int.natCast_inj, ← removeAt_eq_iff]
    exact ⟨flatIndex_inj hremoved hremoved', fun h => h ▸ rfl⟩

/-- The middle one of three axes, for strides that run both ways and are no multiples of the element
size, and for a result of eight elements. -/
theorem offset_addresses_result_middle :
    (1 < 3 ∧ 0 < 4) ∧
      ((AxisPlace.of 3 1).offset 4 [-7, 3, 100] [5, 2, 9] = -2 ∧
        flatOffset [-7, 3, 100] 4 [5, 2, 9] 1 = -2) ∧
      ((indices [2, 4])[7]? = some [1, 3] ∧ totalOffset 4 1 [2, 3, 4] [1, 0, 3] = 7) ∧
      totalOffset 4 1 [2, 3, 4] [1, 0, 3] = totalOffset 4 1 [2, 3, 4] [1, 2, 3] ∧
      totalOffset 4 1 [2, 3, 4] [1, 0, 3] ≠ totalOffset 4 1 [2, 3, 4] [0, 0, 3] := by
  obtain ⟨hways, hresult⟩ := @offset_addresses_result 3 1 4 (by decide) (by decide)
  obtain ⟨hplace, hshared⟩ := hresult [2, 3, 4] rfl
  have hway := hways [-7, 3, 100] [5, 2, 9] (by decide) rfl
  have hvalue : (AxisPlace.of 3 1).offset 4 [-7, 3, 100] [5, 2, 9] = -2 := by decide
  obtain ⟨r, -, hr, hget⟩ := hplace [1, 0, 3] rfl
  have hseven : totalOffset 4 1 [2, 3, 4] [1, 0, 3] = 7 := by decide
  obtain rfl : r = 7 := Int.natCast_inj.1 (hr.symm.trans hseven)
  refine ⟨by decide, ⟨hvalue, hway.symm.trans hvalue⟩, ⟨hget, hseven⟩, ?_, ?_⟩
  · exact (hshared [1, 0, 3] [1, 2, 3] rfl rfl).2 (removeAt_eq_iff.1 rfl)
  · intro h
    have hfirst := (hshared [1, 0, 3] [0, 0, 3] rfl rfl).1 h 0 (by decide)
    cases hfirst

end Pointwise

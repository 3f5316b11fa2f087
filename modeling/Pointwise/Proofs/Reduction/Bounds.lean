import Pointwise.Proofs.NDArray.Gapless
import Pointwise.Proofs.Reduction.Axes

/-!
# Indices of a reduction

A reduction with each index checked before it is used. On an array without gaps it does what the
reduction without checks does, whatever a failing check would be answered with, so none fails.
-/

namespace Pointwise

open NDArray (inBounds)
open Stateful

/-! ## Checks -/

/-- Goes on if something holds, and fails if not. -/
def Stateful.demand {σ : Type} (e : Error) (p : Prop) [Decidable p] : Stateful σ Unit :=
  if p then pure () else throw e

theorem Stateful.demand_bind {σ α : Type} {e : Error} {p : Prop} [Decidable p] (h : p)
    (act : Stateful σ α) : (demand e p >>= fun _ => act) = act := by
  rw [demand, if_pos h, pure_bind]

namespace NDArray

/-- The bytes of an element that is so far from the first one are there. -/
def Covers (a : NDArray) (start : Int) : Prop :=
  0 ≤ start ∧ start + a.itemsize ≤ a.data.size

instance (a : NDArray) (start : Int) : Decidable (a.Covers start) :=
  inferInstanceAs (Decidable (_ ∧ _))

/-- The coordinate belongs to the shape, and the bytes of its element are there. -/
def Stores (a : NDArray) (index : List Nat) : Prop :=
  inBounds a.shape index = true ∧ a.Covers (distance a.strides index)

instance (a : NDArray) (index : List Nat) : Decidable (a.Stores index) :=
  inferInstanceAs (Decidable (_ ∧ _))

theorem Gapless.stores {a : NDArray} (h : a.Gapless) {index : List Nat}
    (hindex : inBounds a.shape index = true) : a.Stores index := by
  have hle := h.byteOffset_le hindex
  refine ⟨hindex, ?_⟩
  rw [← h.byteOffset_eq_distance hindex]
  exact ⟨Int.natCast_nonneg _, by exact_mod_cast hle⟩

end NDArray

namespace Reducer

variable {σ : Type} (r : Reducer σ) (e : Error)

def checkedLine (a : NDArray) (acc : DType) (initial : Option Scalar) : Stateful σ Scalar := do
  demand e (0 < a.rank)
  let n := a.shape.headD 0
  let item (i : Nat) : Stateful σ Scalar := do
    demand e (a.Stores [i])
    return a.element [i]
  match r.seed? initial acc with
  | some s => (List.range n).foldlM (fun total i => do r.step acc total (← item i)) s
  | none =>
    if n = 0 then throw (.emptyReduction r.name)
    let first ← item 0
    (List.range' 1 (n - 1)).foldlM (fun total i => do r.step acc total (← item i)) (first.cast acc)

def checkedSweep (a : NDArray) (axis : Nat) (coordinates : List (List Nat)) (out : NDArray) :
    Stateful σ NDArray :=
  let place := AxisPlace.of a.rank axis
  coordinates.foldlM (fun out index => do
    -- Both lists are cut at the axis.
    demand e (axis < index.length ∧ index.length = out.strides.length + 1)
    let steps := place.offset out.itemsize out.strides (index.map Int.ofNat)
    demand e (out.Covers (steps * out.itemsize))
    demand e (a.Stores index)
    let offset := steps.toNat * out.itemsize
    let v ← r.fold (out.readAt offset) (a.element index)
    return out.writeAt offset v) out

def checkedFirstSlice (a : NDArray) (axis : Nat) (acc : DType) : Stateful σ NDArray :=
  let shape := removeAt axis a.shape
  (indices shape).foldlM (fun out index => do
    demand e (axis ≤ index.length)
    demand e (a.Stores (insertAt axis 0 index))
    demand e (out.Stores index)
    return out.put index (a.element (insertAt axis 0 index))) (.zeros acc shape)

def checkedAxis (a : NDArray) (axis : Nat) (acc : DType) (initial : Option Scalar) :
    Stateful σ NDArray := do
  demand e (axis < a.rank)
  let shape := removeAt axis a.shape
  match r.seed? initial acc with
  | some s => r.checkedSweep e a axis (indices a.shape) (.full acc shape s)
  | none =>
    if size shape = 0 then return .zeros acc shape
    if a.shape.getD axis 0 = 0 then throw (.emptyReduction r.name)
    let first ← checkedFirstSlice e a axis acc
    demand e (∀ index ∈ indices a.shape, axis < index.length)
    r.checkedSweep e a axis ((indices a.shape).filter (·.getD axis 0 != 0)) first

def checkedAxes (a : NDArray) (axes : List Nat) (acc : DType) (initial : Option Scalar) :
    Stateful σ Reduced :=
  match _h : axes.min? with
  | none => throw (.invalidAxis .noAxes)
  | some least => do
    let out ← r.checkedAxis e a least acc initial
    if axes.length = 1 then return .array out
    -- The other axes are counted one less.
    demand e (∀ k ∈ axes, k ≠ least → 1 ≤ k)
    if out.rank = 1 then return .scalar (← r.checkedLine e out acc none)
    else checkedAxes out (shiftAxes least axes) acc none
termination_by axes.length
decreasing_by exact length_shiftAxes_lt _h

/-- A reduction that fails with the given error where an index is out of bounds. -/
def checkedRun (a : NDArray) (options : ReduceOptions) : Stateful σ Reduced := do
  if a.rank = 0 then throw (.invalidAxis (.rankZero r.name))
  liftM (r.checkReorderable options.axis)
  let acc := options.dtype.getD a.dtype
  if a.rank = 1 then
    match options.axis with
    | .index k => discard (liftM (Axis.check 1 k))
    | .several ks => discard (liftM (Axis.checkAll 1 ks))
    | .all | .unspecified => pure ()
    return .scalar (← r.checkedLine e a acc options.initial)
  match options.axis with
  | .unspecified => throw (.invalidAxis .unspecified)
  | .index k =>
    let k ← liftM (Axis.check a.rank k)
    return .array (← r.checkedAxis e a k acc options.initial)
  | .several ks =>
    let ks ← liftM (Axis.checkAll a.rank ks)
    r.checkedAxes e a ks acc options.initial
  | .all => r.checkedAxes e a (List.range a.rank) acc options.initial

/-! ## No check fails -/

variable {r e} {a out : NDArray} {k : Nat} {ks axes : List Nat} {acc : DType}
  {initial : Option Scalar} {options : ReduceOptions}

theorem checkedLine_eq (ha : a.Gapless) (hrank : a.rank = 1) :
    r.checkedLine e a acc initial = r.reduceLine a acc initial := by
  obtain ⟨n, hshape⟩ := List.length_eq_one_iff.1 hrank
  have hstores {i : Nat} (hi : i < n) : a.Stores [i] := by
    refine ha.stores ?_
    rw [hshape, inBounds_cons]
    exact ⟨hi, rfl⟩
  have hfold {l : List Nat} (hl : ∀ i ∈ l, i < n) (total : Scalar) :
      l.foldlM (fun total i => do
        demand e (a.Stores [i])
        r.step acc total (a.element [i])) total =
      (l.map fun i => a.element [i]).foldlM (r.step acc) total := by
    rw [List.foldlM_map]
    exact foldlM_congr (fun _ => True) (fun _ _ i hi => demand_bind (hstores (hl i hi)) _)
      (fun _ _ _ _ _ _ _ => trivial) trivial
  have hlength : a.shape.headD 0 = n := by rw [hshape]; rfl
  unfold checkedLine reduceLine
  rw [demand_bind (by omega), hlength]
  simp only [bind_assoc, pure_bind]
  cases r.seed? initial acc with
  | some seed => exact hfold (fun i hi => List.mem_range.1 hi) seed
  | none =>
    dsimp only
    by_cases hn : n = 0
    case pos => rw [if_pos hn, if_pos hn, throw_then, throw_then]
    case neg =>
      rw [if_neg hn, if_neg hn, demand_bind (hstores (by omega))]
      exact hfold (fun i hi => by have := List.mem_range'_1.1 hi; omega) _

theorem HoldsTotals.covers (h : HoldsTotals a k acc out) (hk : k < a.rank) {index : List Nat}
    (hindex : inBounds a.shape index = true) :
    out.Covers ((AxisPlace.of a.rank k).offset out.itemsize out.strides (index.map Int.ofNat) *
      out.itemsize) := by
  have hremove := inBounds_removeAt hk hindex
  rw [← h.shape] at hremove
  have hlt := flatIndex_lt hremove
  have hle : flatIndex out.shape (removeAt k index) * out.itemsize + out.itemsize ≤
      out.data.size := by
    rw [h.contiguous.size, ← Nat.succ_mul, Nat.mul_comm]
    exact Nat.mul_le_mul_left _ hlt
  unfold NDArray.rank at hk ⊢
  rw [h.contiguous.offset_eq_flatIndex h.shape hk hindex]
  exact ⟨Int.mul_nonneg (Int.natCast_nonneg _) (Int.natCast_nonneg _), by exact_mod_cast hle⟩

theorem checkedSweep_eq (ha : a.Gapless) (hk : k < a.rank) {l : List (List Nat)}
    (hl : ∀ i ∈ l, inBounds a.shape i = true) (hout : HoldsTotals a k acc out) :
    r.checkedSweep e a k l out = r.sweep a k l out := by
  unfold checkedSweep sweep
  refine foldlM_congr (HoldsTotals a k acc) (fun out hout index hindex => ?_) ?_ hout
  · have hin := hl index hindex
    have hlength : k < index.length ∧ index.length = out.strides.length + 1 := by
      rw [length_of_inBounds hin, hout.contiguous.strides, length_rowMajorStrides, hout.shape,
        length_removeAt hk]
      exact ⟨hk, rfl⟩
    rw [demand_bind hlength, demand_bind (hout.covers hk hin), demand_bind (ha.stores hin)]
  · intro out hout index _ s out' h
    dsimp only at h
    rw [answer_bind] at h
    obtain ⟨v, -, h⟩ := bind_eq_ok.1 h
    cases h
    exact hout.writeAt

theorem checkedFirstSlice_eq (ha : a.Gapless) (hk : k < a.rank) (hlength : a.shape.getD k 0 ≠ 0) :
    (checkedFirstSlice e a k acc : Stateful σ NDArray) = pure (firstSlice a k acc) := by
  have hzeros : HoldsTotals a k acc (.zeros acc (removeAt k a.shape)) :=
    ⟨NDArray.contiguous_zeros .., rfl, rfl⟩
  unfold checkedFirstSlice firstSlice
  rw [← List.foldlM_pure]
  refine foldlM_congr (HoldsTotals a k acc) (fun out hout index hindex => ?_) ?_ hzeros
  · have hin := mem_indices.1 hindex
    have hkept : k ≤ index.length := by
      have hsame := length_of_inBounds hin
      have hremove := length_removeAt (show k < a.shape.length from hk)
      unfold NDArray.rank at hk
      omega
    have hfirst : inBounds a.shape (insertAt k 0 index) = true :=
      (inBounds_insertAt hk).2 ⟨Nat.pos_of_ne_zero hlength, hin⟩
    rw [← hout.shape] at hin
    rw [demand_bind hkept, demand_bind (ha.stores hfirst),
      demand_bind (hout.contiguous.gapless.stores hin)]
  · intro out hout index _ s out' h
    cases h
    exact hout.put

theorem checkedAxis_eq (ha : a.Gapless) (hk : k < a.rank) :
    r.checkedAxis e a k acc initial = r.reduceAxis a k acc initial := by
  have hall : ∀ i ∈ indices a.shape, inBounds a.shape i = true := fun i hi => mem_indices.1 hi
  unfold checkedAxis reduceAxis
  rw [demand_bind hk]
  cases r.seed? initial acc with
  | some seed => exact checkedSweep_eq ha hk hall (holdsTotals_full a k acc seed)
  | none =>
    dsimp only
    by_cases hsize : size (removeAt k a.shape) = 0
    case pos => rw [if_pos hsize, if_pos hsize]
    case neg =>
      rw [if_neg hsize, if_neg hsize]
      by_cases hlength : a.shape.getD k 0 = 0
      case pos => rw [if_pos hlength, if_pos hlength, throw_then, throw_then]
      case neg =>
        have hcoordinates : ∀ index ∈ indices a.shape, k < index.length := by
          intro index hindex
          rw [length_of_inBounds (hall index hindex)]
          exact hk
        rw [if_neg hlength, if_neg hlength, checkedFirstSlice_eq ha hk hlength, pure_bind,
          demand_bind hcoordinates]
        exact checkedSweep_eq ha hk (fun i hi => hall i (List.mem_filter.1 hi).1)
          (firstSlice_spec a k acc).1

theorem checkedAxes_eq (ha : a.Gapless) (hsorts : Sorts axes (k :: ks) a.rank) (hrank : 1 < a.rank) :
    r.checkedAxes e a axes acc initial = r.reduceAxes a axes acc initial := by
  -- The axes that are left are counted anew, so the induction is on their number.
  induction hn : ks.length using Nat.strong_induction_on generalizing a k ks axes initial with
  | _ n ih =>
    subst hn
    have hk := hsorts.range k (.head _)
    have hlength : axes.length = 1 ↔ ks = [] := by
      rw [hsorts.perm.length_eq, List.length_cons, Nat.add_eq_right, List.length_eq_zero_iff]
    have hothers : ∀ i ∈ axes, i ≠ k → 1 ≤ i := by
      intro i hi hne
      rcases List.mem_cons.1 (hsorts.perm.mem_iff.1 hi) with rfl | hi
      · exact absurd rfl hne
      · exact Nat.lt_of_le_of_lt (Nat.zero_le k) (hsorts.least_lt hi)
    rw [reduceAxes_of_sorts hsorts, checkedAxes]
    split
    next hnone =>
      rw [hsorts.min?] at hnone
      cases hnone
    next least hleast =>
      obtain rfl : k = least := Option.some.inj (hsorts.min?.symm.trans hleast)
      rw [checkedAxis_eq ha hk]
      refine bind_congr_of_answer fun s out hout => ?_
      have hleft := rank_reduceAxis hk hout
      have hgapless := (holdsTotals_reduceAxis hout).contiguous.gapless
      cases ks with
      | nil => rw [if_pos (hlength.2 rfl), if_pos rfl]
      | cons k' ks =>
        rw [if_neg (hlength.not.2 (List.cons_ne_nil _ _)), if_neg (List.cons_ne_nil _ _),
          demand_bind hothers]
        by_cases hone : out.rank = 1
        · rw [if_pos hone, if_pos hone, checkedLine_eq hgapless hone]
        · rw [if_neg hone, if_neg hone]
          exact ih ks.length (by simp) hgapless (hleft ▸ hsorts).shift (by omega) (by simp)

/-- On an array without gaps no index of a reduction is out of bounds. -/
theorem checkedRun_eq (ha : a.Gapless) : r.checkedRun e a options = r.run a options := by
  unfold checkedRun run
  by_cases hzero : a.rank = 0
  case pos => rw [if_pos hzero, if_pos hzero, throw_then, throw_then]
  rw [if_neg hzero, if_neg hzero]
  refine bind_congr fun _ => ?_
  dsimp only
  by_cases hone : a.rank = 1
  case pos =>
    rw [if_pos hone, if_pos hone]
    cases options.axis <;> simp only [checkedLine_eq ha hone]
  have hmany : 1 < a.rank := by omega
  rw [if_neg hone, if_neg hone]
  cases options.axis with
  | unspecified => rfl
  | index k =>
    refine bind_congr_of_answer fun s i hi => ?_
    rw [answer_liftM] at hi
    rw [checkedAxis_eq ha (Axis.lt_of_check hi)]
  | several ks =>
    refine bind_congr_of_answer fun s axes haxes => ?_
    rw [answer_liftM] at haxes
    obtain ⟨rfl, hvalid⟩ := Axis.checkAll_ends.of_ok haxes
    obtain ⟨k, rest, hsorts⟩ := Sorts.exists_sorts_of_valid hvalid
    exact checkedAxes_eq ha hsorts hmany
  | all =>
    obtain ⟨k, ks, hsorts⟩ := Sorts.exists_all hzero
    exact checkedAxes_eq ha hsorts hmany

end Reducer

end Pointwise

import Pointwise.Proofs.NDArray.Store
import Pointwise.Proofs.Reduction.Runs

/-!
# Lines of a reduction

A reduction along one axis folds each line along the axis on its own, although it goes through the
array in row-major order and keeps all totals in one buffer.
-/

namespace Pointwise

open NDArray (inBounds)
open Stateful

/-! ## Offsets of totals -/

theorem elementSteps_mul {itemsize : Nat} (h : 0 < itemsize) (i n : Nat) :
    elementSteps itemsize i (itemsize * n : Nat) = (i * n : Nat) := by
  unfold elementSteps
  have hmul : (i : Int) * (itemsize * n : Nat) = (i * n : Nat) * (itemsize : Int) := by
    rw [← Int.natCast_mul, ← Int.natCast_mul, Nat.mul_left_comm, Nat.mul_comm itemsize]
  rw [hmul, Int.mul_tdiv_cancel _ (by omega)]

theorem totalSteps_rowMajorStrides {itemsize : Nat} (hpos : 0 < itemsize) {shape index : List Nat}
    (h : inBounds shape index = true) :
    totalSteps itemsize (rowMajorStrides itemsize shape) (index.map Int.ofNat) =
      flatIndex shape index := by
  unfold totalSteps
  induction shape generalizing index with
  | nil =>
    cases index with
    | nil => rfl
    | cons i is => cases h
  | cons d ds ih =>
    cases index with
    | nil => cases h
    | cons i is =>
      obtain ⟨-, his⟩ := inBounds_cons.1 h
      rw [rowMajorStrides, List.map_cons, List.zipWith_cons_cons, List.sum_cons, ih his]
      have hstep := elementSteps_mul hpos i (span ds)
      rw [span_eq_size his] at hstep ⊢
      exact congrArg (· + (flatIndex ds is : Int)) hstep

theorem offset_eq_totalSteps {rank axis : Nat} {itemsize : Int} {strides index : List Int}
    (hindex : index.length = rank) (hstrides : rank ≤ strides.length + 1) (haxis : axis < rank) :
    (AxisPlace.of rank axis).offset itemsize strides index =
      totalSteps itemsize strides (removeAt axis index) := by
  unfold AxisPlace.of removeAt
  split
  next h =>
    subst h
    rfl
  next h =>
    split
    next hlast =>
      have hdrop : index.drop (axis + 1) = [] := List.drop_of_length_le (by omega)
      rw [hdrop, List.append_nil]
      unfold AxisPlace.offset
      dsimp only
      rw [List.dropLast_eq_take, show index.length - 1 = axis by omega]
    next hlast =>
      unfold AxisPlace.offset totalSteps
      dsimp only
      have hlen : (index.take axis).length = (strides.take axis).length := by
        rw [List.length_take, List.length_take]
        omega
      have hsplit : List.zipWith (elementSteps itemsize) (index.take axis ++ index.drop (axis + 1))
          (strides.take axis ++ strides.drop axis) =
            List.zipWith (elementSteps itemsize) (index.take axis) (strides.take axis) ++
              List.zipWith (elementSteps itemsize) (index.drop (axis + 1)) (strides.drop axis) :=
        List.zipWith_append hlen
      rw [List.take_append_drop] at hsplit
      rw [hsplit, List.sum_append]

theorem map_removeAt {α β : Type} (f : α → β) (k : Nat) (l : List α) :
    (removeAt k l).map f = removeAt k (l.map f) := by
  simp [removeAt]

theorem length_removeAt {α : Type} {k : Nat} {l : List α} (h : k < l.length) :
    (removeAt k l).length + 1 = l.length := by
  simp [removeAt]
  omega

theorem inBounds_removeAt {k : Nat} {shape index : List Nat} (hk : k < shape.length)
    (h : inBounds shape index = true) : inBounds (removeAt k shape) (removeAt k index) = true := by
  have hk' : k < index.length := by
    rw [length_of_inBounds h]
    exact hk
  rw [← insertAt_removeAt hk', inBounds_insertAt hk] at h
  exact h.2

theorem offset_rowMajorStrides {itemsize : Nat} (hpos : 0 < itemsize) {shape index : List Nat}
    {k : Nat} (hk : k < shape.length) (hindex : inBounds shape index = true) :
    (AxisPlace.of shape.length k).offset itemsize (rowMajorStrides itemsize (removeAt k shape))
      (index.map Int.ofNat) = flatIndex (removeAt k shape) (removeAt k index) := by
  have hlen := length_of_inBounds hindex
  have hstrides : shape.length ≤ (rowMajorStrides itemsize (removeAt k shape)).length + 1 := by
    rw [length_rowMajorStrides, length_removeAt hk]
  rw [offset_eq_totalSteps (by simpa using hlen) hstrides hk, ← map_removeAt,
    totalSteps_rowMajorStrides hpos (inBounds_removeAt hk hindex)]

namespace NDArray

theorem Contiguous.offset_eq_flatIndex {out : NDArray} (h : out.Contiguous)
    {shape index : List Nat} {k : Nat} (hshape : out.shape = removeAt k shape)
    (hk : k < shape.length) (hindex : inBounds shape index = true) :
    (AxisPlace.of shape.length k).offset out.itemsize out.strides (index.map Int.ofNat) =
      flatIndex out.shape (removeAt k index) := by
  rw [h.strides, hshape]
  exact offset_rowMajorStrides out.itemsize_pos hk hindex

theorem Contiguous.offset_eq {out : NDArray} (h : out.Contiguous) {shape index : List Nat} {k : Nat}
    (hshape : out.shape = removeAt k shape) (hk : k < shape.length)
    (hindex : inBounds shape index = true) :
    ((AxisPlace.of shape.length k).offset out.itemsize out.strides (index.map Int.ofNat)).toNat *
      out.itemsize = out.byteOffset (removeAt k index) := by
  have hremove := inBounds_removeAt hk hindex
  rw [← hshape] at hremove
  rw [h.offset_eq_flatIndex hshape hk hindex, h.byteOffset_eq hremove, Int.toNat_natCast,
    Nat.mul_comm]

end NDArray

/-! ## Totals of lines -/

/-- The elements along an axis at a coordinate of the other axes. -/
def NDArray.line (a : NDArray) (k : Nat) (j : List Nat) : List Scalar :=
  (List.range (a.shape.getD k 0)).map fun i => a.element (insertAt k i j)

/-- The left fold of a line, from a seed or else from its first element as an accumulator. -/
def IsTotal (step : Scalar → Scalar → Except Error Scalar) (acc : DType) (seed? : Option Scalar)
    (line : List Scalar) (total : Scalar) : Prop :=
  match seed?, line with
  | some s, line => line.foldlM step s = .ok total
  | none, x :: xs => xs.foldlM step (x.cast acc) = .ok total
  | none, [] => False

/-- A step of a fold whose total has the type of the accumulator. -/
def stepOf (g : Scalar → Scalar → Except Error Scalar) (acc : DType) (total x : Scalar) :
    Except Error Scalar :=
  (g total x).map (·.cast acc)

theorem headD_eq_getD {α : Type} (l : List α) (x : α) : l.headD x = l.getD 0 x := by
  cases l <;> rfl

namespace Reducer

variable {σ : Type} {r : Reducer σ} {inv : σ → Prop} {a : NDArray} {acc : DType}
  {g : Scalar → Scalar → Except Error Scalar}

theorem dtype_seed? {initial : Option Scalar} {s : Scalar} (h : r.seed? initial acc = some s) :
    s.dtype = acc := by
  obtain ⟨x, -, rfl⟩ := Option.map_eq_some_iff.1 h
  exact Scalar.dtype_cast ..

theorem dtype_stepOf {total x v : Scalar} (h : stepOf g acc total x = .ok v) : v.dtype = acc := by
  unfold stepOf at h
  cases hg : g total x with
  | error e =>
    rw [hg] at h
    cases h
  | ok w =>
    rw [hg] at h
    cases h
    exact Scalar.dtype_cast ..

theorem dtype_foldlM {l : List Scalar} {s v : Scalar} (hs : s.dtype = acc)
    (h : l.foldlM (stepOf g acc) s = .ok v) : v.dtype = acc := by
  induction l generalizing s with
  | nil =>
    cases h
    exact hs
  | cons x l ih =>
    rw [List.foldlM_cons] at h
    obtain ⟨t, ht, h⟩ := bind_eq_ok.1 h
    exact ih (dtype_stepOf ht) h

theorem dtype_of_isTotal {line : List Scalar} {initial : Option Scalar} {v : Scalar}
    (h : IsTotal (stepOf g acc) acc (r.seed? initial acc) line v) : v.dtype = acc := by
  unfold IsTotal at h
  split at h
  next s _ hseed => exact dtype_foldlM (dtype_seed? hseed) h
  next => exact dtype_foldlM (Scalar.dtype_cast ..) h
  next => exact h.elim

/-! ### One line -/

section

variable (hfold : ∀ total x, total.dtype = acc → x.dtype = a.dtype →
  Answers inv (r.fold total x) (g total x))

include hfold

theorem answers_line {l : List Scalar} (hl : ∀ x ∈ l, x.dtype = a.dtype) {s : Scalar}
    (hs : s.dtype = acc) : Answers inv (l.foldlM (r.step acc) s) (l.foldlM (stepOf g acc) s) := by
  apply Answers.foldlM (P := fun total : Scalar => total.dtype = acc) ?_ ?_ hs
  · intro total htotal x hx
    exact (hfold total x htotal (hl x hx)).map (·.cast acc)
  · intro total _ x _ v hv
    exact dtype_stepOf hv

theorem isTotal_reduceLine {initial : Option Scalar} {s : σ} (hs : inv s) {v : Scalar}
    (h : answer (r.reduceLine a acc initial) s = .ok v) :
    IsTotal (stepOf g acc) acc (r.seed? initial acc) (a.line 0 []) v := by
  have hitems : ∀ l : List Nat, ∀ x ∈ l.map fun i => a.element [i], x.dtype = a.dtype := by
    intro l x hx
    obtain ⟨i, -, rfl⟩ := List.mem_map.1 hx
    exact NDArray.dtype_element a [i]
  unfold reduceLine at h
  rw [headD_eq_getD] at h
  dsimp only at h
  unfold IsTotal NDArray.line
  cases hseed : r.seed? initial acc with
  | some seed =>
    rw [hseed] at h
    dsimp only at h
    rw [(answers_line hfold (hitems _) (dtype_seed? hseed)).answer_eq hs] at h
    exact h
  | none =>
    rw [hseed] at h
    dsimp only at h
    cases hn : a.shape.getD 0 0 with
    | zero =>
      rw [hn] at h
      cases h
    | succ n =>
      rw [hn, if_neg (Nat.succ_ne_zero n), Nat.add_sub_cancel,
        (answers_line hfold (hitems _) (Scalar.dtype_cast ..)).answer_eq hs] at h
      rw [List.range_eq_range', List.range'_succ]
      exact h

end

/-! ### All lines at once -/

/-- Folds the element at each coordinate into the total of its line. -/
def sweepTotals (g : Scalar → Scalar → Except Error Scalar) (a : NDArray) (k : Nat)
    (l : List (List Nat)) (out : NDArray) : Except Error NDArray :=
  l.foldlM (fun out index => do
    return out.put (removeAt k index) (← g (out.element (removeAt k index)) (a.element index))) out

/-- A result in which each total has its place. -/
structure HoldsTotals (a : NDArray) (k : Nat) (acc : DType) (out : NDArray) : Prop where
  contiguous : out.Contiguous
  shape : out.shape = removeAt k a.shape
  dtype : out.dtype = acc

theorem HoldsTotals.writeAt {k : Nat} {out : NDArray} {offset : Nat} {v : Scalar}
    (h : HoldsTotals a k acc out) : HoldsTotals a k acc (out.writeAt offset v) :=
  ⟨⟨h.contiguous.strides, (size_writeBytes ..).trans h.contiguous.size⟩, h.shape, h.dtype⟩

theorem HoldsTotals.put {k : Nat} {out : NDArray} {j : List Nat} {v : Scalar}
    (h : HoldsTotals a k acc out) : HoldsTotals a k acc (out.put j v) := h.writeAt

/-- Each total is the fold of those of the elements that lie on its line. -/
theorem sweepTotals_eq_ok {k : Nat} (hk : k < a.shape.length) {l : List (List Nat)}
    (hl : ∀ i ∈ l, inBounds a.shape i = true) {out out' : NDArray} (hout : HoldsTotals a k acc out)
    (h : sweepTotals g a k l out = .ok out') :
    HoldsTotals a k acc out' ∧ ∀ j, inBounds (removeAt k a.shape) j = true →
      ((l.filter (removeAt k · == j)).map a.element).foldlM (stepOf g acc) (out.element j) =
        .ok (out'.element j) := by
  induction l generalizing out with
  | nil =>
    cases h
    exact ⟨hout, fun j _ => rfl⟩
  | cons i l ih =>
    have hi := inBounds_removeAt hk (hl i (.head _))
    unfold sweepTotals at h
    rw [List.foldlM_cons] at h
    cases hg : g (out.element (removeAt k i)) (a.element i) with
    | error e =>
      rw [hg] at h
      cases h
    | ok v =>
      rw [hg] at h
      obtain ⟨hout', hrest⟩ := ih (fun i hi => hl i (.tail _ hi)) hout.put h
      refine ⟨hout', fun j hj => ?_⟩
      -- Only the total of the line of `i` changes.
      have hput := hout.contiguous.separate.element_put (v := v) (hout.shape ▸ hi) (hout.shape ▸ hj)
      have hj' := hrest j hj
      rw [hput, hout.dtype] at hj'
      by_cases hij : removeAt k i = j
      · rw [if_pos hij] at hj'
        rw [List.filter_cons_of_pos (by simpa using hij), List.map_cons, List.foldlM_cons, ← hij,
          stepOf, hg, map_ok, ok_bind, hij]
        exact hj'
      · rw [if_neg hij] at hj'
        rw [List.filter_cons_of_neg (by simpa using hij)]
        exact hj'

section

variable (hfold : ∀ total x, total.dtype = acc → x.dtype = a.dtype →
  Answers inv (r.fold total x) (g total x))

include hfold

theorem answers_sweep {k : Nat} (hk : k < a.shape.length) {l : List (List Nat)}
    (hl : ∀ i ∈ l, inBounds a.shape i = true) {out : NDArray} (hout : HoldsTotals a k acc out) :
    Answers inv (r.sweep a k l out) (sweepTotals g a k l out) := by
  unfold sweep sweepTotals
  apply Answers.foldlM (P := HoldsTotals a k acc) ?_ ?_ hout
  · intro out hout i hi
    have hoffset := hout.contiguous.offset_eq hout.shape hk (hl i hi)
    dsimp only
    unfold NDArray.rank
    rw [hoffset]
    have htotal : (out.element (removeAt k i)).dtype = acc := by
      rw [NDArray.dtype_element, hout.dtype]
    exact (hfold _ _ htotal (NDArray.dtype_element a i)).map (out.put (removeAt k i))
  · intro out hout i _ out' h
    obtain ⟨v, -, h⟩ := bind_eq_ok.1 h
    cases h
    exact hout.put

end

theorem holdsTotals_full (a : NDArray) (k : Nat) (acc : DType) (s : Scalar) :
    HoldsTotals a k acc (.full acc (removeAt k a.shape) s) :=
  ⟨NDArray.contiguous_full .., rfl, rfl⟩

theorem firstSlice_spec (a : NDArray) (k : Nat) (acc : DType) :
    HoldsTotals a k acc (firstSlice a k acc) ∧
      ∀ j, inBounds (removeAt k a.shape) j = true →
        (firstSlice a k acc).element j = (a.element (insertAt k 0 j)).cast acc := by
  have hzeros := NDArray.contiguous_zeros acc (removeAt k a.shape)
  have hputs := (NDArray.zeros acc (removeAt k a.shape)).putAll_ok
    (fun j => a.element (insertAt k 0 j)) (indices (removeAt k a.shape))
  obtain ⟨hcont, hdtype, hshape, helements⟩ := NDArray.putAll_indices_eq_ok hzeros hputs
  refine ⟨⟨hcont, hshape, hdtype⟩, fun j hj => ?_⟩
  obtain ⟨v, hv, helement⟩ := helements j hj
  cases hv
  exact helement

theorem filter_rest {k : Nat} {j : List Nat} (hk : k < a.shape.length)
    (hj : inBounds (removeAt k a.shape) j = true) :
    ((indices a.shape).filter (·.getD k 0 != 0)).filter (removeAt k · == j) =
      (List.range' 1 (a.shape.getD k 0 - 1)).map (insertAt k · j) := by
  have hkj : k ≤ j.length := by
    have hlen := length_of_inBounds hj
    have hremove := length_removeAt hk
    omega
  rw [List.filter_comm, filter_indices hk hj, List.filter_map]
  congr 1
  have hget : (fun l : List Nat => l.getD k 0 != 0) ∘ (insertAt k · j) = fun i => i != 0 := by
    funext i
    exact congrArg (· != 0) (getD_insertAt hkj)
  rw [hget]
  cases a.shape.getD k 0 with
  | zero => rfl
  | succ n =>
    rw [List.range_eq_range', List.range'_succ, Nat.add_sub_cancel, List.filter_cons_of_neg (by simp),
      List.filter_eq_self]
    intro i hi
    have hpos := (List.mem_range'_1.1 hi).1
    simp
    omega

theorem isTotal_reduceAxis (hfold : ∀ total x, total.dtype = acc → x.dtype = a.dtype →
    Answers inv (r.fold total x) (g total x)) {k : Nat} (hk : k < a.shape.length)
    {initial : Option Scalar} {s : σ} (hs : inv s) {out : NDArray}
    (h : answer (r.reduceAxis a k acc initial) s = .ok out) :
    HoldsTotals a k acc out ∧ ∀ j, inBounds (removeAt k a.shape) j = true →
      IsTotal (stepOf g acc) acc (r.seed? initial acc) (a.line k j) (out.element j) := by
  have hall : ∀ i ∈ indices a.shape, inBounds a.shape i = true := fun i hi => mem_indices.1 hi
  unfold reduceAxis at h
  dsimp only at h
  cases hseed : r.seed? initial acc with
  | some seed =>
    have hfull := holdsTotals_full a k acc seed
    rw [hseed] at h
    dsimp only at h
    rw [(answers_sweep hfold hk hall hfull).answer_eq hs] at h
    obtain ⟨hout, hlines⟩ := sweepTotals_eq_ok hk hall hfull h
    refine ⟨hout, fun j hj => ?_⟩
    have hline := hlines j hj
    rw [filter_indices hk hj, NDArray.element_full hj,
      Scalar.cast_of_dtype (dtype_seed? hseed), List.map_map] at hline
    exact hline
  | none =>
    rw [hseed] at h
    dsimp only at h
    split at h
    next hsize =>
      -- There are no lines, so there is nothing to show for one.
      cases h
      refine ⟨⟨NDArray.contiguous_zeros .., rfl, rfl⟩, fun j hj => ?_⟩
      have hlt := flatIndex_lt hj
      omega
    next =>
      split at h
      next => cases h
      next hn =>
        obtain ⟨hfirst, hheads⟩ := firstSlice_spec a k acc
        have hrest : ∀ i ∈ (indices a.shape).filter (·.getD k 0 != 0), inBounds a.shape i = true :=
          fun i hi => hall i (List.mem_filter.1 hi).1
        rw [(answers_sweep hfold hk hrest hfirst).answer_eq hs] at h
        obtain ⟨hout, hlines⟩ := sweepTotals_eq_ok hk hrest hfirst h
        refine ⟨hout, fun j hj => ?_⟩
        have hline := hlines j hj
        rw [filter_rest hk hj, hheads j hj, List.map_map] at hline
        obtain ⟨n, hn'⟩ := Nat.exists_eq_succ_of_ne_zero hn
        unfold IsTotal NDArray.line
        rw [hn', Nat.succ_sub_one] at hline
        rw [hn', List.range_eq_range', List.range'_succ]
        exact hline

end Reducer

end Pointwise

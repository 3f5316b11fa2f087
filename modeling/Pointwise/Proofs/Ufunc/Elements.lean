import Pointwise.Proofs.Ufunc.Calls

/-!
# What a call computes

A call without outputs computes one element for each coordinate of the common shape of its operands,
which is that of a scalar if no operand has an axis.
-/

namespace Pointwise

open Broadcast
open NDArray (inBounds)

namespace Operand

@[simp] theorem dtype_valueAt (index : List Nat) (op : Operand) :
    (valueAt index op).dtype = op.dtype := by
  cases op with
  | array a => exact a.dtype_element _
  | scalar s => rfl
  | literal l => exact l.dtype_toScalar

theorem valueAt_nil {op : Operand} (h : op.shape = []) : valueAt [] op = op.value := by
  cases op with
  | array a =>
    show a.element (sourceIndex [] a.shape) = _
    rw [show a.shape = [] from h]
    rfl
  | scalar s => rfl
  | literal l => rfl

theorem valueAt_sourceIndex {op : Operand} {between index : List Nat}
    (hlen : op.shape.length ≤ between.length) (hindex : between.length ≤ index.length)
    (hdim : ∀ k, Stretches (dim op.shape k) (dim between k)) :
    valueAt (sourceIndex index between) op = valueAt index op := by
  cases op with
  | array a => exact congrArg a.element (sourceIndex_sourceIndex hlen hindex hdim)
  | scalar s => rfl
  | literal l => rfl

end Operand

namespace Ufunc

variable {inputs : List Operand}

theorem shape_eq_nil (h : ¬0 < commonRank inputs) {op : Operand} (hop : op ∈ inputs) :
    op.shape = [] :=
  Decidable.by_contra fun hshape => h (commonRank_pos ⟨op, hop, hshape⟩)

theorem isJoin_nil (h : ¬0 < commonRank inputs) : IsJoin (inputs.map Operand.shape) [] := by
  have hnil : ∀ s ∈ inputs.map Operand.shape, s = [] := by
    intro s hs
    obtain ⟨op, hop, rfl⟩ := List.mem_map.1 hs
    exact shape_eq_nil h hop
  refine ⟨fun s hs => ?_, .inl rfl, fun s hs k => ?_, fun k => .inl (dim_nil k)⟩
  · rw [hnil s hs]
  · rw [hnil s hs]
    exact .inr rfl

theorem runCall_nil (name : String) (a : Adapter) (ret : DType) (inputs : List Operand) :
    runCall name a (resultType inputs ret) inputs [] =
      if 0 < commonRank inputs then do
        let shape ← Broadcast.operands inputs
        let out ← fill inputs (.zeros ret shape) a.call
        return .array out
      else do return .scalar (← a.call (inputs.map (valueAt []))) := by
  unfold runCall resultType
  by_cases hrank : 0 < commonRank inputs
  · simp only [if_pos hrank]
    rfl
  · have hvalues : inputs.map (valueAt []) = inputs.map Operand.value :=
      List.map_congr_left fun op hop => Operand.valueAt_nil (shape_eq_nil hrank hop)
    simp only [if_neg hrank, hvalues]
    rfl

theorem runCall_congr {name : String} {a a' : Adapter} {ret : DType} {inputs' : List Operand}
    (hshapes : inputs'.map Operand.shape = inputs.map Operand.shape)
    (hcall : ∀ shape index, IsJoin (inputs.map Operand.shape) shape →
      inBounds shape index = true →
      a'.call (inputs'.map (valueAt index)) = a.call (inputs.map (valueAt index))) :
    runCall name a' (resultType inputs' ret) inputs' [] =
      runCall name a (resultType inputs ret) inputs [] := by
  have hrank : commonRank inputs' = commonRank inputs := by
    have hranks := congrArg (List.map List.length) hshapes
    rw [List.map_map, List.map_map] at hranks
    exact congrArg (List.foldl max 0) hranks
  have hoperands : Broadcast.operands inputs' = Broadcast.operands inputs := congrArg shapes hshapes
  rw [runCall_nil, runCall_nil, hrank, hoperands]
  by_cases hpos : 0 < commonRank inputs
  · rw [if_pos hpos, if_pos hpos]
    cases hshape : Broadcast.operands inputs with
    | error e => rfl
    | ok shape =>
      have hjoin := isJoin_of_shapes hshape
      have hfill : fill inputs' (.zeros ret shape) a'.call = fill inputs (.zeros ret shape) a.call := by
        rw [fill_eq_putAll _ (hshapes ▸ hjoin), fill_eq_putAll _ hjoin]
        exact NDArray.putAll_congr fun index hindex =>
          hcall shape index hjoin (mem_indices.1 hindex)
      rw [ok_bind, ok_bind, hfill]
  · rw [if_neg hpos, if_neg hpos, hcall [] [] (isJoin_nil hpos) rfl]

theorem runCall_eq_ok {name : String} {a : Adapter} {r : Operand}
    (h : runCall name a (resultType inputs a.outerRet) inputs [] = .ok r) :
    IsJoin (inputs.map Operand.shape) r.shape ∧
      ∀ index, inBounds r.shape index = true →
        a.call (inputs.map (valueAt index)) = .ok (valueAt index r) := by
  rw [runCall_nil] at h
  split at h
  case isTrue hpos =>
    obtain ⟨shape, hshape, h⟩ := bind_eq_ok.1 h
    obtain ⟨out, hout, h⟩ := bind_eq_ok.1 h
    cases h
    have hjoin := isJoin_of_shapes hshape
    rw [fill_eq_putAll _ hjoin] at hout
    obtain ⟨-, -, hoshape, helements⟩ :=
      NDArray.putAll_indices_eq_ok (NDArray.contiguous_zeros a.outerRet shape) hout
    have hrshape : Operand.shape (.array out) = shape := hoshape
    rw [hrshape]
    refine ⟨hjoin, fun index hindex => ?_⟩
    obtain ⟨v, hv, helement⟩ := helements index hindex
    have hvt : v.dtype = a.outerRet := dtype_adapter_call hv
    have hvalue : valueAt index (.array out) = v := by
      show out.element (sourceIndex index out.shape) = v
      rw [show out.shape = shape from hoshape, sourceIndex_self hindex, helement]
      show v.cast a.outerRet = v
      rw [← hvt, Scalar.cast_self]
    rw [hv, hvalue]
  case isFalse hpos =>
    obtain ⟨v, hv, h⟩ := bind_eq_ok.1 h
    cases h
    refine ⟨isJoin_nil hpos, fun index hindex => ?_⟩
    rw [List.eq_nil_of_length_eq_zero (length_of_inBounds hindex), hv]
    rfl

end Ufunc

end Pointwise

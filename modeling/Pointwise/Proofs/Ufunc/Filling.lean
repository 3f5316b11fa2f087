import Pointwise.Proofs.NDArray.Reachable
import Pointwise.Proofs.Ufunc.Elements
import Pointwise.Proofs.Ufunc.GivenOutputs
import Pointwise.Proofs.Ufunc.Reductions

/-!
# Calls into an array

An output that is given takes the place of the array that a call would make. The result is stretched
to its shape, if it can be, and converted to its type.
-/

namespace Pointwise

open Broadcast
open NDArray (inBounds)

/-! ## Filling an array of another shape -/

namespace Broadcast

variable {inputs : List Operand} {out : NDArray} {f : List Scalar → Except Error Scalar}
  {shape : List Nat}

theorem fill_eq_ok {g : List Nat → Scalar} (hjoin : IsJoin (inputs.map Operand.shape) shape)
    (hout : shapes [shape, out.shape] = .ok out.shape) (hseparate : out.Separate)
    (hf : ∀ index, inBounds out.shape index = true →
      f (inputs.map (valueAt index)) = .ok (g index)) :
    ∃ filled, fill inputs out f = .ok filled ∧ filled.dtype = out.dtype ∧
      filled.shape = out.shape ∧ filled.strides = out.strides ∧
      ∀ index, inBounds out.shape index = true →
        filled.element index = (g index).cast out.dtype := by
  have hfill : fill inputs out f = out.putAll (fun index => .ok (g index)) (indices out.shape) := by
    unfold fill Broadcast.operands
    rw [shapes_of_isJoin hjoin, ok_bind, hout, ok_bind, if_neg (by simp)]
    exact NDArray.putAll_congr fun index hindex => hf index (mem_indices.1 hindex)
  have hok := NDArray.putAll_ok out g (indices out.shape)
  obtain ⟨hdtype, hshape, hstrides, -⟩ := NDArray.putAll_frame hok
  refine ⟨_, hfill.trans hok, hdtype, hshape, hstrides, fun index hindex => ?_⟩
  obtain ⟨v, hv, helement⟩ := NDArray.putAll_indices_element hseparate hok hindex
  cases hv
  exact helement

theorem fill_eq_error (hjoin : IsJoin (inputs.map Operand.shape) shape)
    (hout : shapes [shape, out.shape] ≠ .ok out.shape) :
    ∃ cause, fill inputs out f = .error (.broadcast cause) := by
  unfold fill Broadcast.operands
  rw [shapes_of_isJoin hjoin, ok_bind]
  cases hcommon : shapes [shape, out.shape] with
  | error e =>
    rw [error_of_shapes hcommon]
    exact ⟨_, rfl⟩
  | ok common =>
    have hne : common ≠ out.shape := by
      rintro rfl
      exact hout hcommon
    rw [ok_bind, if_pos hne]
    exact ⟨_, rfl⟩

end Broadcast

namespace Ufunc

open Stateful

variable {u : Ufunc} {inputs : List Operand} {r : Operand} {out : NDArray}

theorem mergeKeywords_out (inputs : List Operand) (out : NDArray) :
    mergeKeywords inputs [("out", .array out)] = .ok (operands inputs [out]) := by
  simp [mergeKeywords, operands]

theorem inBounds_of_stretched (hout : shapes [r.shape, out.shape] = .ok out.shape)
    {index : List Nat} (hindex : inBounds out.shape index = true) :
    inBounds r.shape (sourceIndex index r.shape) = true := by
  have hjoin := isJoin_of_shapes hout
  exact inBounds_sourceIndex (hjoin.length_le _ (.head _)) (hjoin.stretches _ (.head _)) hindex

theorem call_stretched {ts : List DType} {l : Loop}
    (hr : runCall u.name ⟨ts, l.ret, l⟩ (resultType inputs l.ret) inputs [] = .ok r)
    (hout : shapes [r.shape, out.shape] = .ok out.shape) {index : List Nat}
    (hindex : inBounds out.shape index = true) :
    Adapter.call ⟨ts, out.dtype, l⟩ (inputs.map (valueAt index)) =
      .ok ((r.pin index).value.cast out.dtype) := by
  have hjoin := isJoin_of_shapes hout
  have hlen : r.shape.length ≤ index.length := by
    rw [length_of_inBounds hindex]
    exact hjoin.length_le _ (.head _)
  obtain ⟨hinputs, hvalues⟩ := runCall_eq_ok hr
  have hbetween : inputs.map (valueAt index) =
      inputs.map (valueAt (sourceIndex index r.shape)) := by
    refine List.map_congr_left fun op hop => ?_
    have hmem : op.shape ∈ inputs.map Operand.shape := List.mem_map_of_mem hop
    exact (Operand.valueAt_sourceIndex (hinputs.length_le _ hmem) hlen
      (hinputs.stretches _ hmem)).symm
  have hvalue : valueAt (sourceIndex index r.shape) r = (r.pin index).value := by
    rw [Operand.valueAt_sourceIndex (Nat.le_refl _) hlen fun _ => .inr rfl, Operand.value_pin hlen]
  rw [Adapter.call_eq_map, hbetween, hvalues _ (inBounds_of_stretched hout hindex), hvalue, map_ok]

/--
A call into an array fails unless the result of the call without it can be stretched to the shape of
the array. Else it gives an array of the same type, shape and strides, with the elements of the
result converted to that type.
-/
theorem call_into_eq_stretched (hu : Reachable u) (hlen : inputs.length = u.nin)
    (hr : answer (call inputs []) u = .ok r) (hout : out.Reachable) :
    answer (call inputs [("out", .array out)]) u =
        answer (call (inputs ++ [.array out]) []) u ∧
      ((∃ v, answer (call (inputs ++ [.array out]) []) u = .ok v) ↔
        shapes [r.shape, out.shape] = .ok out.shape) ∧
      (shapes [r.shape, out.shape] ≠ .ok out.shape →
        ∃ cause, answer (call (inputs ++ [.array out]) []) u = .error (.broadcast cause)) ∧
      ∀ v, answer (call (inputs ++ [.array out]) []) u = .ok v →
        ∃ filled, v = .array filled ∧ filled.dtype = out.dtype ∧ filled.shape = out.shape ∧
          filled.strides = out.strides ∧
          ∀ index, inBounds out.shape index = true →
            inBounds r.shape (alignedIndex r.shape index) = true ∧
              filled.get index = .ok ((r.pin index).value.cast out.dtype) := by
  have hcoherent := hu.coherent
  obtain ⟨l, u', hserves⟩ := serves_of_answer hlen hr
  rw [(call_of_serves hcoherent hlen hserves).1] at hr
  have hjoin := (runCall_eq_ok hr).1
  have hops : mergeKeywords (inputs ++ [.array out]) [] = .ok (operands inputs [out]) :=
    mergeKeywords_nil _
  have hanswer : answer (call (inputs ++ [.array out]) []) u =
      (fill inputs out (Adapter.call ⟨inputs.map Operand.dtype, out.dtype, l⟩)).map .array := by
    rw [call_into_of_serves hcoherent hlen hserves out hops]
    unfold runCall
    dsimp only
    cases fill inputs out (Adapter.call ⟨inputs.map Operand.dtype, out.dtype, l⟩) <;> rfl
  refine ⟨?keyword, ?_⟩
  case keyword =>
    rw [call_eq_call ((mergeKeywords_out inputs out).trans hops.symm)]
  rw [hanswer]
  by_cases hshape : shapes [r.shape, out.shape] = .ok out.shape
  case pos =>
    obtain ⟨filled, hfilled, hdtype, hfshape, hstrides, helements⟩ :=
      fill_eq_ok hjoin hshape hout.gapless.separate fun index => call_stretched hr hshape
    rw [hfilled]
    refine ⟨⟨fun _ => hshape, fun _ => ⟨_, rfl⟩⟩, fun h => absurd hshape h, ?_⟩
    rintro _ ⟨⟩
    refine ⟨filled, rfl, hdtype, hfshape, hstrides, fun index hindex => ⟨?_, ?_⟩⟩
    · have hlen : r.shape.length ≤ index.length := by
        rw [length_of_inBounds hindex]
        exact (isJoin_of_shapes hshape).length_le _ (.head _)
      rw [← sourceIndex_eq_alignedIndex hlen]
      exact inBounds_of_stretched hshape hindex
    · unfold NDArray.get
      rw [hfshape, if_pos hindex, helements index hindex, Scalar.cast_cast]
  case neg =>
    obtain ⟨cause, hcause⟩ := fill_eq_error hjoin hshape
    rw [hcause]
    refine ⟨⟨?_, fun h => absurd h hshape⟩, fun _ => ⟨cause, rfl⟩, ?_⟩
    · rintro ⟨v, ⟨⟩⟩
    · rintro v ⟨⟩

/-- Room for two results, with the axes the other way round. -/
def turnedOutput : NDArray := after (performOn .transpose) (.zeros .int32 [3, 2, 2])

theorem call_into_eq_stretched_difference :
    Reachable difference ∧ differenceArgs.length = difference.nin ∧ turnedOutput.Reachable ∧
      ∃ r filled, answer (call differenceArgs []) difference = .ok r ∧ r.shape = [2, 3] ∧
        answer (call differenceArgs [("out", .array turnedOutput)]) difference =
          .ok (.array filled) ∧
        filled.dtype = .int32 ∧ filled.shape = [2, 2, 3] ∧ filled.strides = [4, 8, 16] ∧
        filled.get [1, 0, 2] = .ok ((r.pin [1, 0, 2]).value.cast .int32) := by
  have hu : Reachable difference := .new _ _ _ Definition.parse_difference
  have hout : turnedOutput.Reachable := .performOn _ (.zeros .int32 [3, 2, 2])
  have hshape : (answer (call differenceArgs []) difference).toOption.map Operand.shape =
      some [2, 3] := by
    decide +kernel
  cases hr : answer (call differenceArgs []) difference with
  | error e =>
    rw [hr] at hshape
    cases hshape
  | ok r =>
    rw [hr] at hshape
    replace hshape : r.shape = [2, 3] := Option.some.inj hshape
    obtain ⟨hsame, hok, -, helements⟩ := call_into_eq_stretched hu rfl hr hout
    have hstretch : shapes [r.shape, turnedOutput.shape] = .ok turnedOutput.shape := by
      rw [hshape]
      rfl
    obtain ⟨v, hv⟩ := hok.2 hstretch
    obtain ⟨filled, rfl, hdtype, hfshape, hstrides, hall⟩ := helements v hv
    refine ⟨hu, rfl, hout, r, filled, rfl, hshape, hsame.trans hv, hdtype, hfshape, hstrides, ?_⟩
    exact (hall [1, 0, 2] rfl).2

end Ufunc

end Pointwise

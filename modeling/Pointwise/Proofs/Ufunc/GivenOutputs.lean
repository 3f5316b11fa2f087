import Pointwise.Proofs.Ufunc.Calls

/-!
# Calls with given outputs

A call whose outputs are given is typed by its inputs, and runs into the first output. Outputs that
are passed by a keyword stand behind the inputs.
-/

namespace Pointwise

open Broadcast

namespace Ufunc

open Stateful

variable {u u' : Ufunc} {l : Loop} {args inputs : List Operand} {outputs : List NDArray}
  {keywords : List (String × Operand)}

/-- The operands of a call with outputs. -/
def operands (inputs : List Operand) (outputs : List NDArray) : List Operand :=
  inputs ++ outputs.map .array

theorem operands_nil (inputs : List Operand) : operands inputs [] = inputs := List.append_nil _

theorem length_operands : (operands inputs outputs).length = inputs.length + outputs.length := by
  simp [operands]

theorem take_operands (h : inputs.length = u.nin) : (operands inputs outputs).take u.nin = inputs :=
  List.take_left' h

theorem drop_operands (h : inputs.length = u.nin) :
    (operands inputs outputs).drop u.nin = outputs.map .array :=
  List.drop_left' h

theorem call_eq_call {args' : List Operand} {keywords' : List (String × Operand)}
    (h : mergeKeywords args keywords = mergeKeywords args' keywords') :
    call args keywords = call args' keywords' := by
  unfold call
  rw [h]

theorem mergeKeywords_nil (args : List Operand) : mergeKeywords args [] = .ok args := by
  simp [mergeKeywords]

/-- All or none of the outputs of a call are given. -/
def GivesOutputs (u : Ufunc) (outputs : List NDArray) : Prop :=
  outputs = [] ∨ outputs.length = u.nout

/-! ## Types -/

/-- What is known of a call before its loop is. -/
def shapeOf (inputs : List Operand) (outputs : List NDArray) : CallShape where
  dtypes := (operands inputs outputs).map Operand.dtype
  givenOutputs := outputs.map NDArray.operandType
  rank := commonRank (operands inputs outputs)
  order := commonOrder ((operands inputs outputs).map Operand.type)

theorem callShape_of_operands (hlen : inputs.length = u.nin) (h : u.GivesOutputs outputs) :
    CallShape.of u.name u.nin u.nout ((operands inputs outputs).map Operand.type) =
      .ok (shapeOf inputs outputs) := by
  have hcount : (operands inputs outputs).length ≠ u.nin →
      (operands inputs outputs).length = u.nin + u.nout := by
    rw [length_operands, hlen]
    rcases h with rfl | h
    · exact fun hne => absurd rfl hne
    · exact fun _ => congrArg (u.nin + ·) h
  have hdrop : ((operands inputs outputs).map Operand.type).drop u.nin =
      outputs.map NDArray.operandType := by
    rw [← List.map_drop, drop_operands hlen, List.map_map]
    rfl
  have harrays : (outputs.map NDArray.operandType).find? (!·.isArray) = none := by
    simp [NDArray.operandType, OperandType.isArray]
  simpa [CallShape.of, hdrop, harrays, shapeOf, commonRank, Function.comp_def] using hcount

theorem inputTypes_shapeOf (inputs : List Operand) (outputs : List NDArray) :
    inputTypes (shapeOf inputs outputs) = inputs.map Operand.dtype := by
  simp [inputTypes, shapeOf, operands]

/-! ## Loops -/

theorem answer_of_find?_eq_none (hfrozen : u.frozen = true) (hlen : inputs.length = u.nin)
    (houtputs : u.GivesOutputs outputs) (h : u.find? (inputs.map Operand.dtype) = none) :
    answer (resolve ((operands inputs outputs).map Operand.type)) u =
      .error (.noMatchingLoop u.name ((operands inputs outputs).map Operand.type)) := by
  have htypes : (shapeOf inputs outputs).dtypes.take ((shapeOf inputs outputs).dtypes.length -
      (shapeOf inputs outputs).givenOutputs.length) = inputs.map Operand.dtype :=
    inputTypes_shapeOf inputs outputs
  unfold resolve
  simp only [answer_bind, answer_get, after_get, answer_liftM, after_liftM, ok_bind,
    callShape_of_operands hlen houtputs, htypes, h, hfrozen]
  rfl

theorem typeCall_of_serves (hu : Coherent u) (hlen : inputs.length = u.nin)
    (houtputs : u.GivesOutputs outputs) (h : Serves u (inputs.map Operand.dtype) l u') :
    ∃ signature, answer (typeCall ((operands inputs outputs).map Operand.type)) u =
      .ok signature := by
  have hnout := hu.nout_of_serves h
  rw [← inputTypes_shapeOf inputs outputs] at h
  have htyped : ∃ ts, u.outputTypes (shapeOf inputs outputs) l.ret = .ok ts := by
    unfold outputTypes
    rw [if_pos hnout]
    split <;> exact ⟨_, rfl⟩
  obtain ⟨ts, hts⟩ := htyped
  unfold typeCall
  rw [answer_bind, (h.resolve (callShape_of_operands hlen houtputs)).2, hts, map_ok, ok_bind]
  exact ⟨_, rfl⟩

theorem call_into_of_serves (hu : Coherent u) (hlen : inputs.length = u.nin)
    (h : Serves u (inputs.map Operand.dtype) l u') (out : NDArray)
    (hops : mergeKeywords args keywords = .ok (operands inputs [out])) :
    answer (call args keywords) u =
      runCall u.name ⟨inputs.map Operand.dtype, out.dtype, l⟩ out.operandType inputs
        [.array out] := by
  obtain ⟨hu', hhas, hargs, hfind⟩ := hu.serves h
  have hnout := hu.nout_of_serves h
  have hgiven : u.GivesOutputs [out] := .inr hnout.symm
  have hname : u'.name = u.name := by cases h <;> rfl
  have hnin : u'.nin = u.nin := by cases h <;> rfl
  rw [← inputTypes_shapeOf inputs [out]] at h
  obtain ⟨hafter, hanswer⟩ := h.resolve (callShape_of_operands hlen hgiven)
  have houtputs : u.outputTypes (shapeOf inputs [out]) l.ret = .ok [out.operandType] := rfl
  rw [houtputs, map_ok] at hanswer
  have hret : CallSignature.ret? ⟨[out.operandType], (operands inputs [out]).map Operand.type⟩ =
      some out.operandType := rfl
  have houter : (((operands inputs [out]).map Operand.type).take u.nin).map OperandType.dtype =
      inputs.map Operand.dtype := by
    rw [loopKey_of_types, loopKey, take_operands hlen]
  have hadapter := answer_adapterFor ⟨inputs.map Operand.dtype, some out.dtype⟩ hu' hhas
    (by simpa using hargs.symm)
  have hdtype : out.operandType.dtype = out.dtype := rfl
  unfold call
  simp only [answer_bind, answer_liftM, after_liftM, answer_get, after_get, ok_bind, hops,
    hanswer, hafter, hret, hname, hnin, houter, hdtype, hadapter, take_operands hlen,
    drop_operands hlen]
  rfl

end Ufunc

end Pointwise

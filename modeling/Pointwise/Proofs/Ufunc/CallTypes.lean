import Pointwise.Proofs.Ufunc.Calls

/-!
# What a call's type says of its result

Typing a call finds whether it gives an array, of which element type and of which rank. The memory
order is that of a given output, else the one the operands share, and irregular if they share none.
An array that the call makes is row-major.
-/

namespace Pointwise

open Broadcast Stateful

namespace NDArray

variable {out out' : NDArray}

end NDArray

theorem Broadcast.IsJoin.length_eq {ss : List (List Nat)} {shape : List Nat} (h : IsJoin ss shape) :
    shape.length = maxRank ss := by
  apply Nat.le_antisymm
  · rcases h.rank with rfl | ⟨s, hs, hlen⟩
    · exact Nat.zero_le _
    · exact hlen ▸ length_le_maxRank hs
  · rcases maxRank_attained ss with hzero | ⟨s, hs, hlen⟩
    · rw [hzero]
      exact Nat.zero_le _
    · exact hlen ▸ h.length_le s hs

namespace Ufunc

variable {u : Ufunc} {args ops : List Operand} {keywords : List (String × Operand)} {v : Operand}

theorem definition_after_resolve (u : Ufunc) (types : List OperandType) :
    (after (resolve types) u).definition = u.definition := by
  rcases after_resolve u types with h | ⟨_, _, _, h⟩ <;> rw [h]
  rfl

theorem eq_of_make {outer : Signature} {l : Loop} {a : Adapter}
    (h : Adapter.make outer l = .ok a) : a = ⟨outer.args, outer.ret.getD l.ret, l⟩ := by
  unfold Adapter.make at h
  split at h
  · cases h
  · cases h
    rfl

theorem call_runs_loop (hu : Coherent u) (h : answer (call args keywords) u = .ok v) :
    ∃ ops signature l t, mergeKeywords args keywords = .ok ops ∧
      answer (resolve (ops.map Operand.type)) u = .ok (signature, l) ∧ signature.ret? = some t ∧
      runCall u.name ⟨u.loopKey ops, t.dtype, l⟩ t (ops.take u.nin) (ops.drop u.nin) = .ok v := by
  unfold call at h
  simp only [answer_bind, answer_liftM, after_liftM, answer_get, after_get, ok_bind] at h
  obtain ⟨ops, hops, h⟩ := bind_eq_ok.1 h
  obtain ⟨⟨signature, l⟩, hresolve, h⟩ := bind_eq_ok.1 h
  have hd := definition_after_resolve u (ops.map Operand.type)
  have hname : (after (resolve (ops.map Operand.type)) u).name = u.name :=
    congrArg Definition.name hd
  have hnin : (after (resolve (ops.map Operand.type)) u).nin = u.nin := congrArg Definition.nin hd
  have hu' : Coherent (after (resolve (ops.map Operand.type)) u) :=
    (stable_coherent.keeps_resolve _).after hu
  rw [hname, hnin] at h
  cases ht : signature.ret? with
  | none =>
    simp only [ht] at h
    cases h
  | some t =>
    simp only [ht, answer_bind, answer_liftM] at h
    obtain ⟨a, ha, h⟩ := bind_eq_ok.1 h
    rw [hu'.answer_adapterFor (has_of_resolve hu hresolve)] at ha
    rw [eq_of_make ha, loopKey_of_types] at h
    exact ⟨ops, signature, l, t, hops, hresolve, ht, h⟩

theorem call_eq_ok (hu : Coherent u) (h : answer (call args keywords) u = .ok v) :
    ∃ ops signature l t a, mergeKeywords args keywords = .ok ops ∧
      answer (resolve (ops.map Operand.type)) u = .ok (signature, l) ∧ signature.ret? = some t ∧
      a.outerRet = t.dtype ∧
      runCall u.name a t (ops.take u.nin) (ops.drop u.nin) = .ok v := by
  obtain ⟨ops, signature, l, t, hops, hresolve, ht, hrun⟩ := call_runs_loop hu h
  exact ⟨ops, signature, l, t, _, hops, hresolve, ht, rfl, hrun⟩

/-! ## The result of a call -/

variable {t : OperandType}

theorem callShape_eq_ok {name : String} {nin nout : Nat} {types : List OperandType}
    {shape : CallShape} (h : CallShape.of name nin nout types = .ok shape) :
    (types.length = nin ∨ types.length = nin + nout) ∧ shape.givenOutputs = types.drop nin ∧
      shape.dtypes = types.map OperandType.dtype := by
  unfold CallShape.of at h
  simp only [throw_eq_error, error_bind, pure_eq_ok] at h
  split at h
  · cases h
  · next hlen =>
    split at h
    · cases h
    · cases h
      exact ⟨by omega, rfl, rfl⟩

end Ufunc

end Pointwise

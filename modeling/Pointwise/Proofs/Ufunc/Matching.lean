import Pointwise.Proofs.Loop.HostErrors
import Pointwise.Proofs.Ufunc.GivenOutputs
import Pointwise.Proofs.Ufunc.Registration

/-!
# The loops that a frozen function chooses

A frozen function has all the loops it will ever have. It serves argument types by the best one of
them, and refuses a call for want of a loop if there is none.
-/

namespace Pointwise

open Broadcast

/-! ## Errors of a call that is served -/

section

variable {hosts : HostTable}

theorem Broadcast.shapes_explained (ss : List (List Nat)) :
    Ends (shapes ss) (fun _ => True) hosts.Explains := by
  unfold shapes
  dsimp only
  split
  · exact Ends.ok trivial
  · exact Ends.error (.of_not rfl)

theorem Broadcast.fill_explained {f : List Scalar → Except Error Scalar}
    (hf : ∀ values, Ends (f values) (fun _ => True) hosts.Explains) (inputs : List Operand)
    (out : NDArray) : Ends (fill inputs out f) (fun _ => True) hosts.Explains := by
  have hall : ∀ (l : List (List Nat)) (out : NDArray),
      Ends (out.putAll (fun index => f (inputs.map (valueAt index))) l) (fun _ => True)
        hosts.Explains := by
    intro l
    induction l with
    | nil => exact fun _ => Ends.ok trivial
    | cons index l ih =>
      intro out
      rw [NDArray.putAll_cons]
      exact (hf _).bind fun v _ => ih (out.put index v)
  unfold fill
  refine (shapes_explained _).bind fun shape _ => (shapes_explained _).bind fun common _ => ?_
  split
  · exact Ends.error (.of_not rfl)
  · exact hall _ out

theorem Ufunc.runCall_explained {a : Adapter} (ha : a.loop.Calls hosts) (name : String)
    (ret : OperandType) (inputs outputs : List Operand) :
    Ends (runCall name a ret inputs outputs) (fun _ => True) hosts.Explains := by
  have hcall (values : List Scalar) : Ends (a.call values) (fun _ => True) hosts.Explains :=
    a.call_explained ha values
  unfold runCall
  split
  · exact (fill_explained hcall _ _).bind fun _ _ => Ends.ok trivial
  · exact Ends.error (.of_not rfl)
  split
  · exact (shapes_explained _).bind fun _ _ =>
      (fill_explained hcall _ _).bind fun _ _ => Ends.ok trivial
  · exact (hcall _).bind fun _ _ => Ends.ok trivial

end

namespace Ufunc

open Stateful

variable {u : Ufunc} {l : Loop}

/-- The loops call host functions of the function's own table. -/
structure Hosted (u : Ufunc) : Prop where
  coherent : Coherent u
  calls : ∀ {args l}, u.table.get? args = some l → l.Calls u.hosts

theorem Reachable.hosted (h : Reachable u) : Hosted u :=
  ⟨h.coherent, fun hget =>
    let ⟨_, _, hcompile⟩ := h.compiled.loop hget
    Loop.calls_of_compile hcompile⟩

theorem Listed.findMatching?_of_get? (hu : Listed u) {ts : List DType}
    (h : u.table.get? ts = some l) : Loop.findMatching? ts u.table.toList = some l := by
  obtain ⟨hl, rfl⟩ := hu.lists.get?_eq_some.1 h
  exact (Loop.findMatching?_eq_some_iff hu.lists.distinct).2 (.of_args hu.lists.distinct hl)

theorem Listed.find?_eq (hu : Listed u) (hfrozen : u.frozen = true) (ts : List DType) :
    u.find? ts = Loop.findMatching? ts u.table.toList := by
  unfold find?
  rw [if_pos hfrozen]
  cases hget : u.table.get? ts with
  | some l => exact (hu.findMatching?_of_get? hget).symm
  | none => rfl

theorem call_explained (hu : Hosted u) {inputs : List Operand} {outputs : List NDArray}
    {args : List Operand} {keywords : List (String × Operand)} (hlen : inputs.length = u.nin)
    (houtputs : u.GivesOutputs outputs)
    (hops : mergeKeywords args keywords = .ok (operands inputs outputs))
    (h : u.find? (inputs.map Operand.dtype) = some l) :
    Ends (answer (call args keywords) u) (fun _ => True) u.hosts.Explains := by
  have hserves : Serves u (inputs.map Operand.dtype) l u := .found h
  have hcalls : l.Calls u.hosts := hu.calls (hu.coherent.find? h).1
  rcases houtputs with rfl | hone
  · rw [operands_nil, ← mergeKeywords_nil] at hops
    rw [call_eq_call hops, (call_of_serves hu.coherent hlen hserves).1]
    exact runCall_explained hcalls _ _ _ _
  · rw [hu.coherent.nout_of_serves hserves, List.length_eq_one_iff] at hone
    obtain ⟨out, rfl⟩ := hone
    rw [call_into_of_serves hu.coherent hlen hserves out hops]
    exact runCall_explained hcalls _ _ _ _

/--
A frozen function serves argument types exactly if some loop takes them, and by the one among these
that is promoted least, the first argument counting most. The order of registration does not matter,
and a loop of exactly the wanted types is no exception. A call for which there is no loop fails for
that reason. Else its typing succeeds, and only a host function that it calls may fail so.
-/
theorem frozen_serves_best (hu : Reachable u) (hfrozen : u.frozen = true) :
    (∀ ts, (∃ l, u.find? ts = some l) ↔ ∃ l ∈ u.table.toList, l.Takes ts) ∧
    (∀ ts l, u.find? ts = some l ↔ l.IsBest ts u.table.toList) ∧
    (∀ v, Reachable v → v.frozen = true → v.table.toList.Perm u.table.toList →
      ∀ ts, v.find? ts = u.find? ts) ∧
    (∀ ts l, u.table.get? ts = some l → Loop.findMatching? ts u.table.toList = some l) ∧
    ∀ inputs outputs args keywords types, inputs.length = u.nin → u.GivesOutputs outputs →
      mergeKeywords args keywords = .ok (operands inputs outputs) →
      types = (operands inputs outputs).map Operand.type →
      (u.find? (inputs.map Operand.dtype) = none →
        answer (typeCall types) u = .error (.noMatchingLoop u.name types) ∧
        answer (call args keywords) u = .error (.noMatchingLoop u.name types)) ∧
      ∀ l, u.find? (inputs.map Operand.dtype) = some l →
        (∃ signature, answer (typeCall types) u = .ok signature) ∧
        ∀ name types, answer (call args keywords) u = .error (.noMatchingLoop name types) →
          u.hosts.Raises (.noMatchingLoop name types) := by
  have hlisted := hu.listed
  have hfind (ts : List DType) : u.find? ts = Loop.findMatching? ts u.table.toList :=
    hlisted.find?_eq hfrozen ts
  refine ⟨?served, ?best, ?order, fun ts l => hlisted.findMatching?_of_get?, ?calls⟩
  case served =>
    intro ts
    rw [hfind]
    exact Loop.findMatching?_isSome_iff
  case best =>
    intro ts l
    rw [hfind]
    exact Loop.findMatching?_eq_some_iff hlisted.lists.distinct
  case order =>
    intro v hv hvfrozen hperm ts
    have hvlisted := hv.listed
    rw [hfind, hvlisted.find?_eq hvfrozen]
    apply Option.ext
    intro l
    rw [Loop.findMatching?_eq_some_iff hlisted.lists.distinct,
      Loop.findMatching?_eq_some_iff hvlisted.lists.distinct]
    exact ⟨fun h => h.perm hperm, fun h => h.perm hperm.symm⟩
  case calls =>
    rintro inputs outputs args keywords _ hlen houtputs hops rfl
    refine ⟨fun hnone => ?_, fun l hl => ?_⟩
    · have hresolve := answer_of_find?_eq_none hfrozen hlen houtputs hnone
      constructor
      · unfold typeCall
        rw [answer_bind, hresolve]
        rfl
      · unfold call
        rw [answer_bind, answer_liftM, after_liftM, hops, ok_bind, answer_bind, hresolve]
        rfl
    · refine ⟨typeCall_of_serves hlisted.coherent hlen houtputs (.found hl), ?_⟩
      intro name types herror
      exact (call_explained hu.hosted hlen houtputs hops hl).of_error herror rfl

/-! ## A function with two loops -/

/-- The difference of single-precision numbers and of integers, and no others. -/
def twoLoops : Ufunc := difference.afterAll [.add "ff->f", .add "ii->i", .freeze]

theorem reachable_twoLoops : Reachable twoLoops :=
  keeps_afterAll (fun r _ => .of_after fun _ hu => hu.perform r)
    (.new _ _ _ Definition.parse_difference)

theorem frozen_serves_best_twoLoops :
    Reachable twoLoops ∧ twoLoops.frozen = true ∧
      (∃ l, twoLoops.find? [.int16, .bool] = some l ∧ l.args = [.int32, .int32] ∧
        l.IsBest [.int16, .bool] twoLoops.table.toList) ∧
      (∀ l ∈ twoLoops.table.toList, ¬l.Takes [.int64, .bool]) ∧
      answer (call [.literal (.int 1), .literal (.bool true)] []) twoLoops =
        .error (.noMatchingLoop "f" [.scalar .int64, .scalar .bool]) := by
  have hfrozen : twoLoops.frozen = true := by decide +kernel
  have hargs : (twoLoops.find? [.int16, .bool]).map Loop.args = some [.int32, .int32] := by
    decide +kernel
  have hnone : (twoLoops.find? [.int64, .bool]).isNone = true := by decide +kernel
  rw [Option.isNone_iff_eq_none] at hnone
  obtain ⟨hserved, hbest, -, -, hcalls⟩ :=
    frozen_serves_best reachable_twoLoops hfrozen
  obtain ⟨l, hl, hlargs⟩ := Option.map_eq_some_iff.1 hargs
  refine ⟨reachable_twoLoops, hfrozen, ⟨l, hl, hlargs, (hbest _ l).1 hl⟩, ?_, ?_⟩
  · intro l hl htakes
    obtain ⟨m, hm⟩ := (hserved [.int64, .bool]).2 ⟨l, hl, htakes⟩
    cases hnone.symm.trans hm
  · obtain ⟨hrefused, -⟩ := hcalls [.literal (.int 1), .literal (.bool true)] []
      [.literal (.int 1), .literal (.bool true)] [] _ rfl (.inl rfl) rfl rfl
    exact (hrefused hnone).2

end Ufunc

end Pointwise

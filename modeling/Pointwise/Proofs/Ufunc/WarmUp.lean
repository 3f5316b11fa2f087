import Pointwise.Proofs.Ufunc.CallTypes
import Pointwise.Proofs.Ufunc.Filling
import Pointwise.Proofs.Ufunc.Registration

/-!
# Compiling ahead of a call

A loop can be compiled for the operands of a call before the call is made. The call finds the
element types of its inputs by typing all operands and taking the outputs off; compiling ahead takes
the inputs first and looks at their element types. Both arrive at the same loop.
-/

namespace Pointwise.Ufunc

open Stateful

variable {u u' : Ufunc} {args ops : List Operand} {keywords : List (String × Operand)}
  {dtypes : List DType} {types : List OperandType} {ret : Option DType} {l : Loop}

/-! ## The element types of the inputs -/

theorem inputTypes_eq {name : String} {nin nout : Nat} {shape : CallShape}
    (h : CallShape.of name nin nout types = .ok shape) :
    inputTypes shape = (types.take nin).map OperandType.dtype := by
  obtain ⟨hlen, hgiven, hdtypes⟩ := callShape_eq_ok h
  have hcount : types.length - (types.length - nin) = nin := by omega
  rw [inputTypes, hgiven, hdtypes, List.length_map, List.length_drop, hcount, List.map_take]

/-! ## Loops that are there -/

theorem Reachable.descends (hu : Reachable u) : Descends u u := ⟨hu.listed, .refl u⟩

theorem after_resolve_of_get? (h : u.table.get? dtypes = some l)
    (htypes : (types.take u.nin).map OperandType.dtype = dtypes) :
    after (resolve types) u = u := by
  have hserves : Serves u dtypes l u := .found (find?_of_get? h)
  cases hshape : CallShape.of u.name u.nin u.nout types with
  | ok shape =>
    rw [← htypes, ← inputTypes_eq hshape] at hserves
    exact (hserves.resolve hshape).1
  | error e =>
    refine (resolve_of_not fun shape hok => ?_).1
    rw [hshape] at hok
    cases hok

theorem get?_after_compileFor (h : answer (compileFor dtypes ret) u = .ok l) :
    (after (compileFor dtypes ret) u).table.get? dtypes = some l := by
  by_cases hnew : ∃ m, u.Compiles dtypes ret m
  · obtain ⟨m, hm⟩ := hnew
    obtain ⟨hanswer, hafter⟩ := hm.compileFor
    rw [h] at hanswer
    cases hanswer
    rw [hafter, hm.get?_withLoop, if_pos rfl]
  · obtain ⟨hafter, hthere⟩ := compileFor_of_not hnew
    rw [hafter]
    exact hthere l h

theorem Serves.compileFor (hu : Coherent u) (hfrozen : u.frozen = false)
    (h : Serves u dtypes l u') :
    answer (compileFor dtypes none) u = .ok l ∧ after (compileFor dtypes none) u = u' := by
  cases h with
  | found h =>
    rw [find?_of_not_frozen hfrozen] at h
    obtain ⟨hafter, hanswer, -⟩ := compileFor_of_get? hu hfrozen h none
    exact ⟨hanswer (.inl rfl), hafter⟩
  | compiled _ hl => exact hl.compileFor

/-! ## Compiling for operands -/

theorem compileForOperands_eq (hops : mergeKeywords args keywords = .ok ops)
    (hlen : ops.length = u.nin ∨ ops.length = u.nargs) :
    answer (compileForOperands args keywords) u = answer (compileFor (u.loopKey ops) none) u ∧
      after (compileForOperands args keywords) u = after (compileFor (u.loopKey ops) none) u := by
  rcases compileForOperands_cases u args keywords with ⟨ops', hops', -, heq⟩ | ⟨hnot, -⟩
  · rw [hops] at hops'
    cases hops'
    exact heq
  · have hne := hnot ops hops
    omega

theorem compileForOperands_eq_ok (h : answer (compileForOperands args keywords) u = .ok l) :
    ∃ ops, mergeKeywords args keywords = .ok ops ∧
      (after (compileForOperands args keywords) u).table.get? (u.loopKey ops) = some l := by
  rcases compileForOperands_cases u args keywords with
    ⟨ops, hops, -, hanswer, hafter⟩ | ⟨-, -, e, he⟩
  · rw [hafter]
    exact ⟨ops, hops, get?_after_compileFor (hanswer.symm.trans h)⟩
  · rw [he] at h
    cases h

/-! ## Calls -/

theorem table_after_call (hops : mergeKeywords args keywords = .ok ops) :
    (after (call args keywords) u).table =
      (after (resolve (ops.map Operand.type)) u).table := by
  have hadapter (v : Ufunc) (outer : Signature) (l : Loop) :
      (after (adapterFor outer l) v).table = v.table := by
    rw [sameButAdapters_after_adapterFor v outer l]
  unfold call
  simp only [after_bind, answer_liftM, after_liftM, hops]
  cases answer (resolve (ops.map Operand.type)) u with
  | error e => rfl
  | ok p =>
    simp only [answer_get, after_get]
    split
    · simp only [after_bind, after_liftM]
      split <;> exact hadapter ..
    · rfl

theorem table_after_call_of_get? (hops : mergeKeywords args keywords = .ok ops)
    (h : u.table.get? (u.loopKey ops) = some l) :
    (after (call args keywords) u).table = u.table := by
  rw [table_after_call hops, after_resolve_of_get? h (loopKey_of_types u ops)]

theorem table_after_typeCall_of_get? (htypes : (types.take u.nin).map OperandType.dtype = dtypes)
    (h : u.table.get? dtypes = some l) : (after (typeCall types) u).table = u.table := by
  have hresolve := after_resolve_of_get? h htypes
  unfold typeCall
  rw [after_bind, hresolve]
  cases answer (resolve types) u <;> rfl

theorem compileForOperands_of_resolve (hu : Coherent u) (hfrozen : u.frozen = false)
    (hops : mergeKeywords args keywords = .ok ops) {signature : CallSignature}
    (h : answer (resolve (ops.map Operand.type)) u = .ok (signature, l)) :
    answer (compileForOperands args keywords) u = .ok l ∧
      after (compileForOperands args keywords) u =
        after (resolve (ops.map Operand.type)) u := by
  obtain ⟨shape, hshape, hserves, -⟩ := serves_of_resolve h
  have hlen := (callShape_eq_ok hshape).1
  rw [List.length_map] at hlen
  rw [inputTypes_eq hshape, loopKey_of_types] at hserves
  obtain ⟨hanswer, hafter⟩ := compileForOperands_eq hops hlen
  rw [hanswer, hafter]
  exact hserves.compileFor hu hfrozen

/--
Until a function is frozen, compiling for the operands of a call prepares the loop that the call
runs. If the call does not fail, compiling gives the loop that the call is typed by and runs, and
leaves the same loops. Once compiling has given a loop, whatever requests come in between, no call
and no typing of a call whose inputs have the same element types adds a loop, however it ends.
-/
theorem compileForOperands_prepares_call (hu : Reachable u) (hfrozen : u.frozen = false)
    (args : List Operand) (keywords : List (String × Operand)) :
    (∀ v, answer (call args keywords) u = .ok v →
      ∃ ops signature l t, mergeKeywords args keywords = .ok ops ∧
        answer (compileForOperands args keywords) u = .ok l ∧
        (after (compileForOperands args keywords) u).table =
          (after (call args keywords) u).table ∧
        answer (resolve (ops.map Operand.type)) u = .ok (signature, l) ∧
        signature.ret? = some t ∧
        runCall u.name ⟨u.loopKey ops, t.dtype, l⟩ t (ops.take u.nin) (ops.drop u.nin) = .ok v) ∧
    ∀ l, answer (compileForOperands args keywords) u = .ok l →
      ∃ ops, mergeKeywords args keywords = .ok ops ∧ ∀ requests w,
        w = (after (compileForOperands args keywords) u).afterAll requests →
        (∀ args' keywords' ops', mergeKeywords args' keywords' = .ok ops' →
          u.loopKey ops' = u.loopKey ops → (after (call args' keywords') w).table = w.table) ∧
        ∀ types, (types.take u.nin).map OperandType.dtype = u.loopKey ops →
          (after (typeCall types) w).table = w.table := by
  constructor
  case left =>
    intro v hv
    obtain ⟨ops, signature, l, t, hops, hresolve, ht, hrun⟩ := call_runs_loop hu.coherent hv
    obtain ⟨hanswer, hafter⟩ := compileForOperands_of_resolve hu.coherent hfrozen hops hresolve
    refine ⟨ops, signature, l, t, hops, hanswer, ?_, hresolve, ht, hrun⟩
    rw [hafter, table_after_call hops]
  case right =>
    intro l hl
    obtain ⟨ops, hops, hget⟩ := compileForOperands_eq_ok hl
    refine ⟨ops, hops, fun requests w hw => ?_⟩
    have hcompiled : Descends u (after (compileForOperands args keywords) u) := by
      simpa [perform] using (keeps_descends u (.compileForOperands args keywords)).after hu.descends
    have hlater : Descends (after (compileForOperands args keywords) u) w := by
      rw [hw]
      exact keeps_afterAll (fun r _ => keeps_descends _ r)
        (hu.compileForOperands args keywords).descends
    have hnin : w.nin = u.nin :=
      congrArg Definition.nin (hlater.kept.definition.trans hcompiled.kept.definition)
    replace hget := hlater.kept.loop _ l hget
    constructor
    · intro args' keywords' ops' hops' hkey
      rw [← hkey, loopKey, ← hnin] at hget
      exact table_after_call_of_get? hops' hget
    · intro types htypes
      rw [← hnin] at htypes
      exact table_after_typeCall_of_get? htypes hget

/-- A difference that is written into room for two results, and one that is made anew once the
function has been frozen. -/
theorem compileForOperands_prepares_call_into_output :
    (Reachable difference ∧ difference.frozen = false) ∧
      ∃ v l, answer (call differenceArgs [("out", .array turnedOutput)]) difference = .ok v ∧
        answer (compileForOperands differenceArgs [("out", .array turnedOutput)]) difference =
          .ok l ∧
        l.args = [.int16, .float32] ∧
        ∃ w, w = (after (compileForOperands differenceArgs [("out", .array turnedOutput)])
            difference).afterAll [.freeze] ∧
          w.frozen = true ∧ (after (call differenceArgs []) w).table = w.table := by
  have hu : Reachable difference := .new _ _ _ Definition.parse_difference
  obtain ⟨v, hv⟩ :
      ∃ v, answer (call differenceArgs [("out", .array turnedOutput)]) difference = .ok v := by
    decide +kernel
  have hargs : (answer (compileForOperands differenceArgs [("out", .array turnedOutput)])
      difference).toOption.map Loop.args = some [.int16, .float32] := by
    decide +kernel
  obtain ⟨hcall, hlater⟩ :=
    compileForOperands_prepares_call hu rfl differenceArgs [("out", .array turnedOutput)]
  obtain ⟨_, _, l, _, hops, hl, -⟩ := hcall v hv
  cases hops
  rw [hl] at hargs
  obtain ⟨_, hops, hunchanged⟩ := hlater l hl
  cases hops
  obtain ⟨hagain, -⟩ := hunchanged [.freeze] _ rfl
  refine ⟨⟨hu, rfl⟩, v, l, hv, hl, Option.some.inj hargs, _, rfl, by decide +kernel, ?_⟩
  exact hagain differenceArgs [] differenceArgs rfl rfl

end Pointwise.Ufunc

import Pointwise.Proofs.Loop.Compile
import Pointwise.Proofs.Loop.Matching
import Pointwise.Proofs.Stateful
import Pointwise.Ufunc.Call

/-!
# The loops of a function

What finding, compiling and adapting a loop answers, and what it leaves of the function.
-/

namespace Pointwise

theorem Definition.nout_of_body {d : Definition} {body : Expr} (h : d.body = .ok body) :
    d.nout = 1 := by
  unfold Definition.body at h
  split at h
  next e he => rw [Definition.nout, he]; rfl
  next => cases h

theorem Loop.nout_of_compile {d : Definition} {hosts : HostTable} {options : Options}
    {args : List DType} {ret : Option DType} {l : Loop}
    (h : Loop.compile d hosts options args ret = .ok l) : d.nout = 1 := by
  obtain ⟨body, t, hcheck, -⟩ := Loop.compile_eq_ok h
  exact Definition.nout_of_body (Definition.check_eq_ok.1 hcheck).2.1

namespace LoopTable

variable {table : LoopTable} {l : Loop} {args : List DType}

theorem get?_insert (h : table.get? l.args = none) :
    (table.insert l).2.get? args = if args = l.args then some l else table.get? args := by
  unfold insert
  rw [h]
  show List.lookup args ((l.args, l) :: table.entries) = _
  rw [List.lookup_cons]
  by_cases hargs : args = l.args
  · rw [if_pos hargs, hargs, beq_self_eq_true]
  · rw [if_neg hargs, beq_false_of_ne hargs]
    rfl

theorem insert_fst (h : table.get? l.args = none) : (table.insert l).1 = l := by
  unfold insert
  rw [h]

theorem exists_get?_of_mem_toList (h : l ∈ table.toList) : ∃ args, table.get? args = some l := by
  obtain ⟨args, -, hargs⟩ := List.mem_filterMap.1 h
  exact ⟨args, hargs⟩

end LoopTable

namespace Ufunc

open Stateful

variable {u : Ufunc} {args : List DType} {ret : Option DType} {l : Loop}

/-- The function with one more loop. -/
def withLoop (u : Ufunc) (l : Loop) : Ufunc := { u with table := (u.table.insert l).2 }

/-- A loop that the function lacks and can compile. -/
structure Compiles (u : Ufunc) (args : List DType) (ret : Option DType) (l : Loop) : Prop where
  frozen : u.frozen = false
  length : args.length = u.nin
  fresh : u.table.get? args = none
  compiled : Loop.compile u.definition u.hosts u.options args ret = .ok l

theorem Compiles.args_eq (h : u.Compiles args ret l) : l.args = args := by
  obtain ⟨_, _, _, hargs, _⟩ := Loop.compile_eq_ok h.compiled
  exact hargs

theorem Compiles.get?_withLoop (h : u.Compiles args ret l) (k : List DType) :
    (u.withLoop l).table.get? k = if k = args then some l else u.table.get? k := by
  have hargs := h.args_eq
  subst hargs
  exact LoopTable.get?_insert h.fresh

/-! ## Compilation -/

theorem lookupExact_eq_some (h : u.lookupExact args ret = .ok (some l)) :
    u.table.get? args = some l := by
  unfold lookupExact at h
  split at h
  · cases h
  · split at h
    · split at h
      · cases h
        assumption
      · cases h
    · cases h
      assumption

theorem lookupExact_eq_none (h : u.lookupExact args ret = .ok none) :
    u.table.get? args = none := by
  unfold lookupExact at h
  split at h
  · assumption
  · split at h
    · split at h
      · cases h
      · cases h
    · cases h

theorem Compiles.compileFor (h : u.Compiles args ret l) :
    answer (compileFor args ret) u = .ok l ∧ after (compileFor args ret) u = u.withLoop l := by
  have hlookup : u.lookupExact args ret = .ok none := by
    unfold lookupExact
    rw [h.fresh]
  have hfst : (u.table.insert l).1 = l := LoopTable.insert_fst (h.args_eq.symm ▸ h.fresh)
  unfold Ufunc.compileFor
  simp [h.frozen, h.length, hlookup, h.compiled, hfst, withLoop]

theorem compileFor_of_not (h : ¬∃ l, u.Compiles args ret l) :
    after (compileFor args ret) u = u ∧
      ∀ l, answer (compileFor args ret) u = .ok l → u.table.get? args = some l := by
  unfold compileFor
  by_cases hfrozen : u.frozen = true
  · simp [hfrozen]
  by_cases hlen : args.length ≠ u.nin
  · simp [hfrozen, hlen]
  rw [Decidable.not_not] at hlen
  cases hlookup : u.lookupExact args ret with
  | error e => simp [hfrozen, hlen, hlookup]
  | ok found =>
    cases found with
    | some l =>
      have hget := lookupExact_eq_some hlookup
      simp [hfrozen, hlen, hlookup, hget]
    | none =>
      have hfresh := lookupExact_eq_none hlookup
      cases hcompile : Loop.compile u.definition u.hosts u.options args ret with
      | error e => simp [hfrozen, hlen, hlookup, hcompile]
      | ok l => exact absurd ⟨l, by simpa using hfrozen, hlen, hfresh, hcompile⟩ h

/-- The element types that choose the loop of a call: those of its inputs. -/
def loopKey (u : Ufunc) (ops : List Operand) : List DType := (ops.take u.nin).map Operand.dtype

theorem compileForOperands_cases (u : Ufunc) (args : List Operand)
    (keywords : List (String × Operand)) :
    (∃ ops, mergeKeywords args keywords = .ok ops ∧
      (ops.length = u.nin ∨ ops.length = u.nargs) ∧
      answer (compileForOperands args keywords) u = answer (compileFor (u.loopKey ops) none) u ∧
      after (compileForOperands args keywords) u = after (compileFor (u.loopKey ops) none) u) ∨
    (∀ ops, mergeKeywords args keywords = .ok ops → ops.length ≠ u.nin ∧ ops.length ≠ u.nargs) ∧
      after (compileForOperands args keywords) u = u ∧
      ∃ e, answer (compileForOperands args keywords) u = .error e := by
  unfold compileForOperands
  simp only [answer_bind, after_bind, answer_get, after_get, answer_liftM, after_liftM, ok_bind]
  cases mergeKeywords args keywords with
  | error e => exact .inr ⟨nofun, rfl, e, rfl⟩
  | ok ops =>
    by_cases harity : ops.length ≠ u.nin ∧ ops.length ≠ u.nargs
    · simp only [ok_bind, if_pos harity]
      refine .inr ⟨?_, rfl, _, rfl⟩
      rintro _ ⟨⟩
      exact harity
    · simp only [ok_bind, if_neg harity]
      exact .inl ⟨ops, rfl, by omega, rfl, rfl⟩

/-! ## Finding or compiling a loop -/

/-- The loop that serves argument types, found or compiled, and the function that has it. -/
inductive Serves (u : Ufunc) (args : List DType) : Loop → Ufunc → Prop
  | found {l : Loop} (h : u.find? args = some l) : Serves u args l u
  | compiled {l : Loop} (h : u.find? args = none) (hl : u.Compiles args none l) :
    Serves u args l (u.withLoop l)

theorem get?_of_find?_eq_none (h : u.find? args = none) : u.table.get? args = none := by
  unfold find? at h
  split at h
  · cases h
  · assumption

theorem find?_of_get? (h : u.table.get? args = some l) : u.find? args = some l := by
  unfold find?
  rw [h]

theorem find?_of_not_frozen (h : u.frozen = false) (args : List DType) :
    u.find? args = u.table.get? args := by
  unfold find?
  rw [h]
  cases u.table.get? args <;> rfl

/-- The element types of the inputs of a call. -/
def inputTypes (shape : CallShape) : List DType :=
  shape.dtypes.take (shape.dtypes.length - shape.givenOutputs.length)

theorem Serves.resolve {types : List OperandType} {shape : CallShape} {u' : Ufunc}
    (hshape : CallShape.of u.name u.nin u.nout types = .ok shape)
    (h : Serves u (inputTypes shape) l u') :
    after (resolve types) u = u' ∧ answer (resolve types) u =
      (u.outputTypes shape l.ret).map fun outputs => (⟨outputs, types⟩, l) := by
  have htypes : shape.dtypes.take (shape.dtypes.length - shape.givenOutputs.length) =
      inputTypes shape := rfl
  unfold Ufunc.resolve
  simp only [answer_bind, after_bind, answer_get, after_get, answer_liftM, after_liftM, ok_bind,
    hshape, htypes]
  cases h with
  | found h => simp [h]
  | compiled h hl => simp [h, hl.frozen, hl.compileFor]

theorem resolve_of_not {types : List OperandType}
    (h : ∀ shape, CallShape.of u.name u.nin u.nout types = .ok shape →
      ¬∃ l u', Serves u (inputTypes shape) l u') :
    after (resolve types) u = u ∧ ∃ e, answer (resolve types) u = .error e := by
  unfold resolve
  simp only [answer_bind, after_bind, answer_get, after_get, answer_liftM, after_liftM, ok_bind]
  cases hshape : CallShape.of u.name u.nin u.nout types with
  | error e => exact ⟨rfl, e, rfl⟩
  | ok shape =>
    have htypes : shape.dtypes.take (shape.dtypes.length - shape.givenOutputs.length) =
        inputTypes shape := rfl
    have hnot := h shape hshape
    simp only [ok_bind, htypes]
    cases hfind : u.find? (inputTypes shape) with
    | some l => exact absurd ⟨l, u, .found hfind⟩ hnot
    | none =>
      by_cases hfrozen : u.frozen = true
      · simp [hfrozen]
      · have hcompiles : ¬∃ l, u.Compiles (inputTypes shape) none l := by
          rintro ⟨l, hl⟩
          exact hnot ⟨l, _, .compiled hfind hl⟩
        obtain ⟨hafter, hanswer⟩ := compileFor_of_not hcompiles
        cases hcompile : answer (compileFor (inputTypes shape) none) u with
        | error e => simp [hfrozen, hcompile, hafter]
        | ok l =>
          have hget := hanswer l hcompile
          rw [get?_of_find?_eq_none hfind] at hget
          cases hget

/-- Typing a call compiles at most one loop, whose return type is inferred. -/
theorem after_resolve (u : Ufunc) (types : List OperandType) :
    after (resolve types) u = u ∨
      ∃ args l, u.Compiles args none l ∧ after (resolve types) u = u.withLoop l := by
  by_cases h : ∃ shape, CallShape.of u.name u.nin u.nout types = .ok shape ∧
      ∃ l u', Serves u (inputTypes shape) l u'
  · obtain ⟨shape, hshape, l, u', hserves⟩ := h
    rw [(hserves.resolve hshape).1]
    cases hserves with
    | found => exact .inl rfl
    | compiled _ hl => exact .inr ⟨_, l, hl, rfl⟩
  · exact .inl (resolve_of_not fun shape hshape hserves => h ⟨shape, hshape, hserves⟩).1

theorem after_adapterFor (u : Ufunc) (outer : Signature) (l : Loop) :
    after (adapterFor outer l) u = u ∨
      ∃ a, Adapter.make outer l = .ok a ∧ after (adapterFor outer l) u =
        { u with adapters := ((outer.args, outer.ret.getD l.ret, l.args), a) :: u.adapters } := by
  unfold adapterFor
  simp only [after_bind, answer_get, after_get]
  cases u.adapters.lookup (outer.args, outer.ret.getD l.ret, l.args) with
  | some a => exact .inl rfl
  | none =>
    cases hmake : Adapter.make outer l with
    | error e => exact .inl (by simp)
    | ok a => exact .inr ⟨a, rfl, by simp⟩

theorem after_adapterFor_again (u : Ufunc) (outer : Signature) (l : Loop) :
    after (adapterFor outer l) (after (adapterFor outer l) u) = after (adapterFor outer l) u := by
  rcases after_adapterFor u outer l with h | ⟨a, -, h⟩
  · rw [h, h]
  · rw [h]
    unfold adapterFor
    simp

/-! ## Functions with other adapters -/

/-- The functions are the same but for the adapters that they keep. -/
def SameButAdapters (u v : Ufunc) : Prop := v = { u with adapters := v.adapters }

theorem sameButAdapters_after_adapterFor (u : Ufunc) (outer : Signature) (l : Loop) :
    SameButAdapters u (after (adapterFor outer l) u) := by
  rcases after_adapterFor u outer l with h | ⟨a, -, h⟩
  · rw [h]
    rfl
  · rw [h]
    rfl

theorem agree_compileFor (args : List DType) (ret : Option DType) :
    Agree SameButAdapters (compileFor args ret) (compileFor args ret) := by
  unfold compileFor
  refine Agree.get_bind fun u v huv => ?_
  have hlookup : v.lookupExact args ret = u.lookupExact args ret := by rw [huv]; rfl
  have harity : v.arityError args.length = u.arityError args.length := by rw [huv]; rfl
  have hname : v.name = u.name := by rw [huv]; rfl
  have hnin : v.nin = u.nin := by rw [huv]; rfl
  rw [hlookup, harity, hname, hnin, huv]
  dsimp only
  split
  · exact .throw_bind _
  by_cases hlen : args.length ≠ u.nin
  · rw [if_pos hlen, if_pos hlen]
    exact .throw_bind _
  rw [if_neg hlen, if_neg hlen]
  refine (Agree.liftM _).bind fun found => ?_
  cases found with
  | some l => exact .pure l
  | none =>
    refine (Agree.liftM _).bind fun l => ?_
    intro s t _
    exact ⟨rfl, rfl⟩

theorem agree_resolve (types : List OperandType) :
    Agree SameButAdapters (resolve types) (resolve types) := by
  unfold resolve
  refine Agree.get_bind fun u v huv => ?_
  rw [huv]
  refine (Agree.liftM _).bind fun shape => ?_
  have hfind : ∀ ts, find? { u with adapters := v.adapters } ts = u.find? ts := fun _ => rfl
  have houtputs : ∀ ret, outputTypes { u with adapters := v.adapters } shape ret =
      u.outputTypes shape ret := fun _ => rfl
  simp only [hfind, houtputs]
  split
  · exact (Agree.pure _).bind fun l => (Agree.liftM _).bind fun outputs => .pure _
  · dsimp only [name]
    split
    · exact .throw_bind _
    · exact (agree_compileFor _ none).bind fun l => (Agree.liftM _).bind fun outputs => .pure _

theorem resolve_again {types : List OperandType} {p : CallSignature × Loop} {v : Ufunc}
    (hp : answer (resolve types) u = .ok p) (hv : SameButAdapters (after (resolve types) u) v) :
    answer (resolve types) v = .ok p ∧ after (resolve types) v = v := by
  by_cases h : ∃ shape, CallShape.of u.name u.nin u.nout types = .ok shape ∧
      ∃ l u', Serves u (inputTypes shape) l u'
  · obtain ⟨shape, hshape, l, u', hserves⟩ := h
    obtain ⟨hafter, hanswer⟩ := hserves.resolve hshape
    rw [hafter] at hv
    have hfind : v.find? (inputTypes shape) = some l := by
      rw [hv]
      cases hserves with
      | found hfound => exact hfound
      | compiled _ hl => exact find?_of_get? (by simp [hl.get?_withLoop])
    have hsame : v.name = u.name ∧ v.nin = u.nin ∧ v.nout = u.nout := by
      rw [hv]
      cases hserves <;> exact ⟨rfl, rfl, rfl⟩
    obtain ⟨hname, hnin, hnout⟩ := hsame
    rw [← hname, ← hnin, ← hnout] at hshape
    obtain ⟨hafter', hanswer'⟩ := (Serves.found hfind).resolve hshape
    refine ⟨?_, hafter'⟩
    rw [hanswer', ← hp, hanswer]
    unfold outputTypes
    rw [hname, hnout]
  · obtain ⟨-, e, he⟩ := resolve_of_not fun shape hshape hserves => h ⟨shape, hshape, hserves⟩
    rw [hp] at he
    cases he

end Ufunc

end Pointwise

import Pointwise.Proofs.Broadcast.Fill
import Pointwise.Proofs.Definition.Equality
import Pointwise.Proofs.Ufunc.Reachable

/-!
# Calls of functions

A call whose operands are served by a loop runs an adapter of that loop, the same one for arrays
and for their elements. So a call on arrays is the map of the calls on their elements.
-/

namespace Pointwise

open Broadcast
open NDArray (inBounds)

namespace Operand

@[simp] theorem dtype_type (op : Operand) : op.type.dtype = op.dtype := by
  cases op <;> rfl

@[simp] theorem rank_type (op : Operand) : op.type.rank = op.shape.length := by
  cases op <;> rfl

/-- The operand with the element under a coordinate in place of an array. -/
def pin (index : List Nat) : Operand → Operand
  | array a => scalar (a.element (alignedIndex a.shape index))
  | op => op

@[simp] theorem dtype_pin (index : List Nat) (op : Operand) : (op.pin index).dtype = op.dtype := by
  cases op with
  | array a => exact NDArray.dtype_element a _
  | scalar s => rfl
  | literal l => rfl

@[simp] theorem shape_pin (index : List Nat) (op : Operand) : (op.pin index).shape = [] := by
  cases op <;> rfl

theorem value_pin {index : List Nat} {op : Operand} (h : op.shape.length ≤ index.length) :
    (op.pin index).value = valueAt index op := by
  cases op with
  | array a => exact congrArg a.element (sourceIndex_eq_alignedIndex h).symm
  | scalar s => rfl
  | literal l => rfl

end Operand

namespace Ufunc

open Stateful

variable {u u' : Ufunc} {l : Loop} {args : List Operand}

/-! ## Types of a call -/

/-- The rank of the common shape of the operands. -/
def commonRank (args : List Operand) : Nat := (args.map fun op => op.shape.length).foldl max 0

/-- The type of the result of a call without outputs. -/
def resultType (args : List Operand) (ret : DType) : OperandType :=
  if 0 < commonRank args then
    .array ret (commonRank args) (commonOrder (args.map Operand.type))
  else .scalar ret

theorem commonRank_pos (h : ∃ op ∈ args, op.shape ≠ []) : 0 < commonRank args := by
  obtain ⟨op, hop, hshape⟩ := h
  have hle := (foldl_max_spec 0 (args.map fun op => op.shape.length)).2.1 _
    (List.mem_map_of_mem hop)
  have hpos := List.length_pos_iff.2 hshape
  unfold commonRank
  omega

theorem commonRank_pin (index : List Nat) : commonRank (args.map (Operand.pin index)) = 0 := by
  unfold commonRank
  rcases (foldl_max_spec 0 ((args.map (Operand.pin index)).map fun op => op.shape.length)).2.2 with
    h | h
  · exact h
  · obtain ⟨op, hop, hlen⟩ := List.mem_map.1 h
    obtain ⟨op', -, rfl⟩ := List.mem_map.1 hop
    rw [← hlen, Operand.shape_pin]
    rfl

theorem dtype_resultType (args : List Operand) (ret : DType) :
    (resultType args ret).dtype = ret := by
  unfold resultType
  split <;> rfl

/-- What is known of a call without outputs before its loop is. -/
def callShape (args : List Operand) : CallShape :=
  ⟨args.map Operand.dtype, [], commonRank args, commonOrder (args.map Operand.type)⟩

theorem callShape_of_args (name : String) (nout : Nat) (args : List Operand) :
    CallShape.of name args.length nout (args.map Operand.type) = .ok (callShape args) := by
  have hdrop : (args.map Operand.type).drop args.length = [] := List.drop_of_length_le (by simp)
  simp [CallShape.of, callShape, commonRank, Function.comp_def, hdrop]

theorem inputTypes_callShape (args : List Operand) :
    inputTypes (callShape args) = args.map Operand.dtype := by
  unfold inputTypes callShape
  exact List.take_of_length_le (by simp)

/-! ## The adapter of a call -/

theorem loopKey_of_types (u : Ufunc) (ops : List Operand) :
    ((ops.map Operand.type).take u.nin).map OperandType.dtype = u.loopKey ops := by
  rw [← List.map_take, loopKey, List.map_map]
  exact List.map_congr_left fun op _ => op.dtype_type

theorem answer_adapterFor (outer : Signature) (hu : Coherent u) (hl : Has u l)
    (hlen : outer.args.length = l.args.length) :
    answer (adapterFor outer l) u = .ok ⟨outer.args, outer.ret.getD l.ret, l⟩ := by
  rw [hu.answer_adapterFor hl]
  unfold Adapter.make
  rw [if_neg (by simpa using hlen)]

theorem find?_after_adapterFor (outer : Signature) (ts : List DType) :
    (after (adapterFor outer l) u).find? ts = u.find? ts := by
  rcases after_adapterFor u outer l with hafter | ⟨a, -, hafter⟩
  · rw [hafter]
  · rw [hafter]
    rfl

theorem resolve_of_serves (hu : Coherent u) (hlen : args.length = u.nin)
    (h : Serves u (args.map Operand.dtype) l u') :
    after (resolve (args.map Operand.type)) u = u' ∧
      answer (resolve (args.map Operand.type)) u =
        .ok (⟨[resultType args l.ret], args.map Operand.type⟩, l) := by
  have hshape := callShape_of_args u.name u.nout args
  rw [hlen] at hshape
  have hnout := hu.nout_of_serves h
  rw [← inputTypes_callShape] at h
  obtain ⟨hafter, hanswer⟩ := h.resolve hshape
  refine ⟨hafter, ?_⟩
  have houtputs : u.outputTypes (callShape args) l.ret = .ok [resultType args l.ret] := by
    unfold outputTypes
    rw [if_neg (by simp [callShape]), if_pos hnout]
    rfl
  rw [hanswer, houtputs, map_ok]

theorem call_of_serves (hu : Coherent u) (hlen : args.length = u.nin)
    (h : Serves u (args.map Operand.dtype) l u') :
    answer (call args []) u =
        runCall u.name ⟨args.map Operand.dtype, l.ret, l⟩ (resultType args l.ret) args [] ∧
      (after (call args []) u).find? (args.map Operand.dtype) = some l := by
  obtain ⟨hu', hhas, hargs, hfind⟩ := hu.serves h
  obtain ⟨hafter, hanswer⟩ := resolve_of_serves hu hlen h
  have hname : u'.name = u.name := by cases h <;> rfl
  have hnin : u'.nin = u.nin := by cases h <;> rfl
  have hmerge : mergeKeywords args [] = .ok args := by simp [mergeKeywords]
  have htake : args.take u.nin = args := List.take_of_length_le (by omega)
  have hdrop : args.drop u.nin = [] := List.drop_of_length_le (by omega)
  have houter : ((args.map Operand.type).take u.nin).map OperandType.dtype =
      args.map Operand.dtype := by
    rw [loopKey_of_types, loopKey, htake]
  have hret : CallSignature.ret? ⟨[resultType args l.ret], args.map Operand.type⟩ =
      some (resultType args l.ret) := rfl
  have hadapter := answer_adapterFor ⟨args.map Operand.dtype, some l.ret⟩ hu' hhas
    (by simpa using hargs.symm)
  constructor
  · unfold call
    simp only [answer_bind, answer_liftM, after_liftM, answer_get, after_get, ok_bind, hmerge,
      hanswer, hafter, hret, hname, hnin, houter, dtype_resultType, hadapter, htake, hdrop]
    rfl
  · rw [← find?_after_adapterFor (l := l) ⟨args.map Operand.dtype, some l.ret⟩] at hfind
    rw [← hfind]
    unfold call
    simp only [after_bind, answer_liftM, after_liftM, answer_get, after_get, hmerge, hanswer, hafter,
      hret, hnin, houter, dtype_resultType, hadapter]

theorem call_of_not (hlen : args.length = u.nin)
    (h : ¬∃ l u', Serves u (args.map Operand.dtype) l u') :
    after (call args []) u = u ∧ ∃ e, answer (resolve (args.map Operand.type)) u = .error e ∧
      answer (call args []) u = .error e := by
  have hmerge : mergeKeywords args [] = .ok args := by simp [mergeKeywords]
  have hresolve : after (resolve (args.map Operand.type)) u = u ∧
      ∃ e, answer (resolve (args.map Operand.type)) u = .error e := by
    apply resolve_of_not
    intro shape hshape
    have hargs := callShape_of_args u.name u.nout args
    rw [hlen, hshape] at hargs
    cases hargs
    rwa [inputTypes_callShape]
  obtain ⟨hafter, e, he⟩ := hresolve
  refine ⟨?_, e, he, ?_⟩
  · unfold call
    simp [hmerge, hafter, he]
  · unfold call
    simp [hmerge, he]

theorem serves_of_find? (hu : Coherent u) (hlen : args.length = u.nin)
    (h : (after (call args []) u).find? (args.map Operand.dtype) = some l) :
    ∃ u', Serves u (args.map Operand.dtype) l u' := by
  by_cases hserves : ∃ l u', Serves u (args.map Operand.dtype) l u'
  · obtain ⟨m, u', hm⟩ := hserves
    have hfind := (call_of_serves hu hlen hm).2
    rw [h] at hfind
    cases hfind
    exact ⟨u', hm⟩
  · rw [(call_of_not hlen hserves).1] at h
    exact ⟨u, .found h⟩

theorem serves_of_answer {r : Operand} (hlen : args.length = u.nin)
    (h : answer (call args []) u = .ok r) : ∃ l u', Serves u (args.map Operand.dtype) l u' := by
  refine Classical.byContradiction fun hserves => ?_
  obtain ⟨-, e, -, he⟩ := call_of_not hlen hserves
  rw [h] at he
  cases he

/-! ## Arrays and their elements -/

theorem dtype_adapter_call {a : Adapter} {values : List Scalar} {v : Scalar}
    (h : a.call values = .ok v) : v.dtype = a.outerRet := by
  unfold Adapter.call at h
  split at h
  · cases h
  · obtain ⟨w, -, h⟩ := bind_eq_ok.1 h
    cases h
    exact Scalar.dtype_cast ..

theorem answer_call_pin (hu : Coherent u) (hlen : args.length = u.nin)
    (h : Serves u (args.map Operand.dtype) l u') (index : List Nat)
    (hindex : ∀ op ∈ args, op.shape.length ≤ index.length) :
    answer (call (args.map (Operand.pin index)) []) u =
      (Adapter.call ⟨args.map Operand.dtype, l.ret, l⟩ (args.map (valueAt index))).map
        Operand.scalar := by
  have hdtypes : (args.map (Operand.pin index)).map Operand.dtype = args.map Operand.dtype := by
    simp
  have hvalues : (args.map (Operand.pin index)).map Operand.value = args.map (valueAt index) := by
    rw [List.map_map]
    exact List.map_congr_left fun op hop => Operand.value_pin (hindex op hop)
  have hret : resultType (args.map (Operand.pin index)) l.ret = .scalar l.ret := by
    unfold resultType
    rw [commonRank_pin]
    rfl
  rw [(call_of_serves hu (by rw [List.length_map, hlen]) (hdtypes.symm ▸ h)).1, hret, hdtypes]
  unfold runCall
  dsimp only
  rw [hvalues]
  cases Adapter.call ⟨args.map Operand.dtype, l.ret, l⟩ (args.map (valueAt index)) <;> rfl

theorem answer_call_array (hu : Coherent u) (hlen : args.length = u.nin)
    (h : Serves u (args.map Operand.dtype) l u') (hrank : ∃ op ∈ args, op.shape ≠ []) :
    answer (call args []) u = do
      let shape ← shapes (args.map Operand.shape)
      let out ← fill args (.zeros l.ret shape)
        (Adapter.call ⟨args.map Operand.dtype, l.ret, l⟩)
      return .array out := by
  have hret : (resultType args l.ret).isArray = true := by
    unfold resultType
    rw [if_pos (commonRank_pos hrank)]
    rfl
  rw [(call_of_serves hu hlen h).1]
  unfold runCall
  dsimp only
  rw [if_pos hret, dtype_resultType]
  rfl

/-- The call on the elements under a coordinate of the common shape. -/
def callAt (u : Ufunc) (args : List Operand) (index : List Nat) : Except Error Operand :=
  answer (call (args.map (Operand.pin index)) []) u

theorem callAt_eq (hu : Coherent u) (hlen : args.length = u.nin)
    (h : Serves u (args.map Operand.dtype) l u') {shape index : List Nat}
    (hjoin : IsJoin (args.map Operand.shape) shape) (hindex : inBounds shape index = true) :
    callAt u args index =
      (Adapter.call ⟨args.map Operand.dtype, l.ret, l⟩ (args.map (valueAt index))).map
        Operand.scalar := by
  apply answer_call_pin hu hlen h index
  intro op hop
  rw [length_of_inBounds hindex]
  exact hjoin.length_le _ (List.mem_map_of_mem hop)

/-- The elements of the result of a call are what it gives on elements. -/
theorem call_array_eq_ok (hu : Coherent u) (hlen : args.length = u.nin)
    (h : Serves u (args.map Operand.dtype) l u') (hrank : ∃ op ∈ args, op.shape ≠ [])
    {r : Operand} (hr : answer (call args []) u = .ok r) :
    ∃ out, r = .array out ∧ out.Contiguous ∧ out.dtype = l.ret ∧
      IsJoin (args.map Operand.shape) out.shape ∧
      ∀ index, inBounds out.shape index = true →
        callAt u args index = .ok (.scalar (out.element index)) := by
  rw [answer_call_array hu hlen h hrank] at hr
  obtain ⟨shape, hshape, hr⟩ := bind_eq_ok.1 hr
  obtain ⟨out, hout, hr⟩ := bind_eq_ok.1 hr
  cases hr
  have hjoin := isJoin_of_shapes hshape
  rw [fill_eq_putAll _ hjoin] at hout
  obtain ⟨hcont, hdtype, hoshape, helements⟩ :=
    NDArray.putAll_indices_eq_ok (NDArray.contiguous_zeros l.ret shape) hout
  have hoshape' : out.shape = shape := hoshape
  subst hoshape'
  refine ⟨out, rfl, hcont, hdtype, hjoin, fun index hindex => ?_⟩
  obtain ⟨v, hv, helement⟩ := helements index hindex
  rw [callAt_eq hu hlen h hjoin hindex, hv, helement, map_ok]
  show _ = Except.ok (Operand.scalar (v.cast l.ret))
  rw [Scalar.cast_of_dtype (dtype_adapter_call hv)]

theorem call_array_eq_error (hu : Coherent u) (hlen : args.length = u.nin)
    (h : Serves u (args.map Operand.dtype) l u') (hrank : ∃ op ∈ args, op.shape ≠ [])
    {shape : List Nat} (hjoin : IsJoin (args.map Operand.shape) shape) (e : Error) :
    answer (call args []) u = .error e ↔
      ∃ index, inBounds shape index = true ∧ callAt u args index = .error e ∧
        ∀ before, inBounds shape before = true → before < index →
          ∃ v, callAt u args before = .ok v := by
  have hfill : answer (call args []) u = .error e ↔
      (NDArray.zeros l.ret shape).putAll (fun index =>
        Adapter.call ⟨args.map Operand.dtype, l.ret, l⟩ (args.map (valueAt index)))
        (indices shape) = .error e := by
    rw [answer_call_array hu hlen h hrank, shapes_of_isJoin hjoin, ok_bind]
    rw [fill_eq_putAll (.zeros l.ret shape) hjoin, bind_eq_error]
    simp
    rfl
  have herror : ∀ index, inBounds shape index = true → (callAt u args index = .error e ↔
      Adapter.call ⟨args.map Operand.dtype, l.ret, l⟩ (args.map (valueAt index)) = .error e) := by
    intro index hindex
    rw [callAt_eq hu hlen h hjoin hindex]
    cases Adapter.call ⟨args.map Operand.dtype, l.ret, l⟩ (args.map (valueAt index)) <;> simp
  have hok : ∀ index, inBounds shape index = true → ((∃ v, callAt u args index = .ok v) ↔
      ∃ v, Adapter.call ⟨args.map Operand.dtype, l.ret, l⟩ (args.map (valueAt index)) = .ok v) := by
    intro index hindex
    rw [callAt_eq hu hlen h hjoin hindex]
    cases Adapter.call ⟨args.map Operand.dtype, l.ret, l⟩ (args.map (valueAt index)) <;> simp
  refine (hfill.trans NDArray.putAll_indices_eq_error).trans ?_
  refine exists_congr fun index => and_congr_right fun hindex => ?_
  rw [herror index hindex]
  refine and_congr_right fun _ => forall_congr' fun before => ?_
  refine forall_congr' fun hbefore => forall_congr' fun _ => ?_
  rw [hok before hbefore]

/--
A call with an array gives a row-major array of the common shape and of the return type of the loop
that serves the operands, and its elements are what the call gives on elements. A call that a loop
serves fails if there is no common shape, or as the first coordinate in row-major order does. The
coordinates that are read belong to the operands.
-/
theorem call_eq_map_of_element_calls (hu : Reachable u) (hlen : args.length = u.nin)
    (hrank : ∃ op ∈ args, op.shape ≠ []) :
    (∀ r, answer (call args []) u = .ok r →
      ∃ l out, (after (call args []) u).find? (args.map Operand.dtype) = some l ∧
        r = .array out ∧ out.Contiguous ∧ out.dtype = l.ret ∧
        IsJoin (args.map Operand.shape) out.shape ∧
        ∀ index, inBounds out.shape index = true →
          callAt u args index = .ok (.scalar (out.element index))) ∧
    (∀ l, (after (call args []) u).find? (args.map Operand.dtype) = some l → ∀ e,
      answer (call args []) u = .error e ↔
        ((¬∃ shape, IsJoin (args.map Operand.shape) shape) ∧
          e = .broadcast (.shapes (args.map Operand.shape))) ∨
        ∃ shape index, IsJoin (args.map Operand.shape) shape ∧ inBounds shape index = true ∧
          callAt u args index = .error e ∧
          ∀ before, inBounds shape before = true → before < index →
            ∃ v, callAt u args before = .ok v) ∧
    ∀ shape index, IsJoin (args.map Operand.shape) shape → inBounds shape index = true →
      ∀ a, .array a ∈ args → sourceIndex index a.shape = alignedIndex a.shape index ∧
        inBounds a.shape (sourceIndex index a.shape) = true := by
  have hcoherent := hu.coherent
  refine ⟨?values, ?errors, ?sources⟩
  case values =>
    intro r hr
    obtain ⟨l, u', hserves⟩ := serves_of_answer hlen hr
    obtain ⟨out, hout⟩ := call_array_eq_ok hcoherent hlen hserves hrank hr
    exact ⟨l, out, (call_of_serves hcoherent hlen hserves).2, hout⟩
  case errors =>
    intro l hl e
    obtain ⟨u', hserves⟩ := serves_of_find? hcoherent hlen hl
    by_cases hjoin : ∃ shape, IsJoin (args.map Operand.shape) shape
    · obtain ⟨shape, hshape⟩ := hjoin
      rw [call_array_eq_error hcoherent hlen hserves hrank hshape]
      constructor
      · rintro ⟨index, hindex⟩
        exact .inr ⟨shape, index, hshape, hindex⟩
      · rintro (⟨hno, -⟩ | ⟨shape', index, hshape', hindex⟩)
        · exact absurd ⟨shape, hshape⟩ hno
        · rw [hshape.unique hshape']
          exact ⟨index, hindex⟩
    · have herror := shapes_eq_error.2 ⟨hjoin, rfl⟩
      rw [answer_call_array hcoherent hlen hserves hrank, herror, error_bind]
      constructor
      · rintro ⟨⟩
        exact .inl ⟨hjoin, rfl⟩
      · rintro (⟨-, rfl⟩ | ⟨shape, index, hshape, -⟩)
        · rfl
        · exact absurd ⟨shape, hshape⟩ hjoin
  case sources =>
    intro shape index hjoin hindex a ha
    have hmem : a.shape ∈ args.map Operand.shape := List.mem_map_of_mem ha
    have hle := hjoin.length_le _ hmem
    refine ⟨sourceIndex_eq_alignedIndex ?_,
      inBounds_sourceIndex hle (hjoin.stretches _ hmem) hindex⟩
    rw [length_of_inBounds hindex]
    exact hle

end Ufunc

/-! ## A call on a transposed array -/

def Definition.difference : Definition :=
  ⟨"f", ["a", "b"], [.arith .sub (.var "a") (.var "b")], "f(a, b) = a - b"⟩

theorem Definition.parse_difference : parse "f(a, b) = a - b" = .ok difference := by decide +kernel

def NDArray.threeByTwo : NDArray := ⟨.int16, [3, 2], [4, 2], #[1, 0, 2, 0, 3, 0, 4, 0, 5, 0, 6, 0]⟩

def NDArray.oneColumn : NDArray := ⟨.float32, [2, 1], [4, 4], #[0, 0, 0, 0, 0, 0, 128, 63]⟩

namespace Ufunc

open Stateful

def difference : Ufunc := new .difference .empty none .default

def differenceArgs : List Operand := [.array NDArray.threeByTwo.transpose, .array .oneColumn]

theorem call_eq_map_of_element_calls_difference :
    Reachable difference ∧ differenceArgs.length = difference.nin ∧
      (∃ op ∈ differenceArgs, op.shape ≠ []) ∧
      ∃ out, answer (call differenceArgs []) difference = .ok (.array out) ∧ out.Contiguous ∧
        IsJoin [[2, 3], [2, 1]] out.shape ∧
        ∀ index, inBounds out.shape index = true →
          callAt difference differenceArgs index = .ok (.scalar (out.element index)) := by
  have hu : Reachable difference := .new _ _ _ Definition.parse_difference
  have hrank : ∃ op ∈ differenceArgs, op.shape ≠ [] := ⟨_, .head _, by decide⟩
  obtain ⟨r, hr⟩ : ∃ r, answer (call differenceArgs []) difference = .ok r := by decide +kernel
  obtain ⟨l, out, -, rfl, hcont, -, hjoin, helements⟩ :=
    (call_eq_map_of_element_calls hu rfl hrank).1 r hr
  exact ⟨hu, rfl, hrank, out, hr, hcont, hjoin, helements⟩

end Ufunc

end Pointwise

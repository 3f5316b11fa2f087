import Pointwise.Proofs.Reduction.Axes
import Pointwise.Proofs.Ufunc.Calls

/-!
# Reductions by functions

A reduction runs an adapter that it keeps from one step to the next. What it computes is the fold of
the calls on two scalars.
-/

namespace Pointwise

open Stateful
open NDArray (inBounds)

theorem stepOf_stepOf (g : Scalar → Scalar → Except Error Scalar) (acc : DType) :
    stepOf (stepOf g acc) acc = stepOf g acc := by
  funext total x
  unfold stepOf
  cases g total x with
  | error e => rfl
  | ok v => exact congrArg Except.ok (v.cast_cast acc)

/-! ## Adapters -/

theorem Adapter.call_eq_map (ts : List DType) (t : DType) (l : Loop) (values : List Scalar) :
    Adapter.call ⟨ts, t, l⟩ values = (Adapter.call ⟨ts, l.ret, l⟩ values).map (·.cast t) := by
  have hconvert : Adapter.convert ⟨ts, t, l⟩ values = Adapter.convert ⟨ts, l.ret, l⟩ values := rfl
  unfold call
  rw [hconvert]
  dsimp only
  split
  · rfl
  · cases hinvoke : l.invoke (Adapter.convert ⟨ts, l.ret, l⟩ values) with
    | error e => rfl
    | ok v =>
      have hv : v.cast l.ret = v := Scalar.cast_of_dtype (Loop.dtype_invoke hinvoke)
      show Except.ok (v.cast t) = Except.ok ((v.cast l.ret).cast t)
      rw [hv]

namespace Ufunc

variable {u u' : Ufunc} {l : Loop} {total x : Scalar}

/-! ## One step -/

/-- The value of a call on two scalars. -/
def callOn (u : Ufunc) (total x : Scalar) : Except Error Scalar :=
  (answer (call [.scalar total, .scalar x] []) u).map Operand.value

theorem callOn_of_serves (hu : Coherent u) (hin : u.nin = 2)
    (h : Serves u [total.dtype, x.dtype] l u') :
    callOn u total x = Adapter.call ⟨[total.dtype, x.dtype], l.ret, l⟩ [total, x] := by
  have hlen : [Operand.scalar total, .scalar x].length = u.nin := hin.symm
  have hcall := answer_call_pin hu hlen h [] (by simp [Operand.shape])
  unfold callOn
  refine (congrArg (Except.map Operand.value) hcall).trans ?_
  show Except.map Operand.value (Except.map Operand.scalar
    (Adapter.call ⟨[total.dtype, x.dtype], l.ret, l⟩ [total, x])) = _
  cases Adapter.call ⟨[total.dtype, x.dtype], l.ret, l⟩ [total, x] <;> rfl

/-- The function as a reduction finds it, or with the adapter that its first step has made. -/
inductive Folding (u : Ufunc) (acc elem : DType) : Ufunc × LastStep → Prop
  | first : Folding u acc elem (u, none)
  | later {l : Loop} {u' : Ufunc} (h : Serves u [acc, elem] l u') (v : Ufunc) :
    Folding u acc elem (v, some ((acc, elem), ⟨[acc, elem], acc, l⟩))

theorem foldStep_later (total x : Scalar) (a : Adapter) :
    answer (foldStep total x) (u, some ((total.dtype, x.dtype), a)) = a.call [total, x] ∧
      after (foldStep total x) (u, some ((total.dtype, x.dtype), a)) =
        (u, some ((total.dtype, x.dtype), a)) := by
  unfold foldStep
  simp

theorem answers_foldStep (hu : Coherent u) (hin : u.nin = 2) (total x : Scalar) :
    Answers (Folding u total.dtype x.dtype) (foldStep total x)
      (stepOf (callOn u) total.dtype total x) := by
  have hvalue : ∀ {l u'}, Serves u [total.dtype, x.dtype] l u' →
      stepOf (callOn u) total.dtype total x =
        Adapter.call ⟨[total.dtype, x.dtype], total.dtype, l⟩ [total, x] := by
    intro l u' h
    rw [stepOf, callOn_of_serves hu hin h, ← Adapter.call_eq_map]
  rintro s (_ | ⟨h, v⟩)
  case first =>
    obtain ⟨hanswer, hafter⟩ := (Remembers.start hin).foldStep_eq total x
    unfold Ensures
    rw [hanswer, hafter]
    -- The types are resolved as they are for a call on two scalars.
    by_cases hserves : ∃ l u', Serves u [total.dtype, x.dtype] l u'
    · obtain ⟨l, u', h⟩ := hserves
      rw [(h.foldAdapter hu hin).1, ok_bind, hvalue h]
      cases Adapter.call ⟨[total.dtype, x.dtype], total.dtype, l⟩ [total, x] with
      | error e => exact rfl
      | ok v => exact ⟨rfl, .later h _⟩
    · have hlen : [Operand.scalar total, .scalar x].length = u.nin := hin.symm
      obtain ⟨-, e, hresolve, hcall⟩ := call_of_not hlen hserves
      have hadapter : answer (foldAdapter total.dtype x.dtype) u = .error e := by
        unfold foldAdapter
        rw [answer_bind]
        simp only [List.map_cons, List.map_nil, Operand.type] at hresolve
        rw [hresolve, error_bind]
      rw [hadapter, error_bind]
      show stepOf (callOn u) total.dtype total x = .error e
      unfold stepOf callOn
      rw [hcall]
      rfl
  case later =>
    obtain ⟨hanswer, hafter⟩ := foldStep_later (u := v) total x _
    unfold Ensures
    rw [hanswer, hafter, hvalue h]
    cases Adapter.call ⟨[total.dtype, x.dtype], total.dtype, _⟩ [total, x] with
    | error e => exact rfl
    | ok w => exact ⟨rfl, .later h v⟩

/-! ## Whole reductions -/

/--
A reduction along one axis has the type of the accumulator and the shape without the axis, and it is
a scalar if no axis is left. Each of its elements is the left fold of a line of the array along the
axis, each step of which is a call on two scalars. Every element of the array lies on one line, at
one place.
-/
theorem reduce_eq_fold_of_calls (hu : Reachable u) (hin : u.nin = 2) (hout : u.nout = 1)
    {a : NDArray} {options : ReduceOptions} {k : Nat} (hk : k < a.rank)
    (haxis : options.axis.Names a.rank k) {result : Reduced}
    (h : answer (reduce a options) u = .ok result) :
    result.dtype = options.dtype.getD a.dtype ∧ result.shape = removeAt k a.shape ∧
      result.isScalar = decide (a.rank = 1) ∧
      (∀ j, inBounds (removeAt k a.shape) j = true →
        IsTotal (stepOf (callOn u) (options.dtype.getD a.dtype)) (options.dtype.getD a.dtype)
          ((options.initial.or u.identity).map (·.cast (options.dtype.getD a.dtype)))
          (a.line k j) (result.element j)) ∧
      ∀ index, inBounds a.shape index = true →
        ∃! p : List Nat × Nat, inBounds (removeAt k a.shape) p.1 = true ∧
          p.2 < a.shape.getD k 0 ∧ insertAt k p.2 p.1 = index := by
  have hcoherent := hu.coherent
  have hlines := fun index (hindex : inBounds a.shape index = true) => existsUnique_line hk hindex
  rw [(reduce_eq a options hout hin).1] at h
  generalize hacc : options.dtype.getD a.dtype = acc
  have hfold : ∀ total x, total.dtype = acc → x.dtype = a.dtype →
      Answers (Folding u acc a.dtype) (u.reducer.fold total x) (stepOf (callOn u) acc total x) := by
    rintro total x rfl hx
    rw [← hx]
    exact answers_foldStep hcoherent hin total x
  by_cases hrank : a.rank = 1
  · obtain ⟨v, rfl, hv⟩ := Reducer.run_of_rank_one hrank h
    rw [hacc] at hv
    have htotal := Reducer.isTotal_reduceLine hfold .first hv
    have hdtype := Reducer.dtype_of_isTotal htotal
    rw [stepOf_stepOf] at htotal
    obtain ⟨n, hshape⟩ := List.length_eq_one_iff.1 hrank
    obtain rfl : k = 0 := by omega
    have hremove : removeAt 0 a.shape = [] := by rw [hshape, removeAt_zero]
    refine ⟨hdtype, hremove.symm, by simp [Reduced.isScalar, hrank], fun j hj => ?_, hlines⟩
    rw [hremove] at hj
    obtain rfl := List.eq_nil_of_length_eq_zero (length_of_inBounds hj)
    exact htotal
  · have hone : options.axis = .index k ∨ options.axis = .several [(k : Int)] := by
      rcases haxis with h | h | ⟨h, -⟩
      · exact .inl h
      · exact .inr h
      · exact absurd h hrank
    obtain ⟨out, rfl, hout'⟩ := Reducer.run_of_axis (by omega) hk hone h
    rw [hacc] at hout'
    obtain ⟨hholds, htotals⟩ := Reducer.isTotal_reduceAxis hfold hk .first hout'
    rw [stepOf_stepOf] at htotals
    exact ⟨hholds.dtype, hholds.shape, by simp [Reduced.isScalar, hrank], htotals, hlines⟩

/-! ## One axis after the other -/

/-- Reduces along one axis after the other, each counted as it is once those before it are gone. -/
def reduceOneByOne (dtype : Option DType) : Reduced → List Nat → Action Reduced
  | r, [] => return r
  | .array a, k :: ks => do
    let r ← reduce a ⟨.index k, dtype, none⟩
    reduceOneByOne dtype r (ks.map (unskip k))
  | .scalar _, _ :: _ => do throw (.invalidAxis (.rankZero (← get).name))
termination_by _ axes => axes.length

theorem reduceOneByOne_nil (dtype : Option DType) (r : Reduced) :
    reduceOneByOne dtype r [] = (return r) := by
  rw [reduceOneByOne]

theorem reduceOneByOne_cons (dtype : Option DType) (a : NDArray) (k : Nat) (ks : List Nat) :
    reduceOneByOne dtype (.array a) (k :: ks) = (do
      reduceOneByOne dtype (← reduce a ⟨.index k, dtype, none⟩) (ks.map (unskip k))) := by
  rw [reduceOneByOne]

/-! ## A reduction of a transposed array -/

def alongRows : ReduceOptions := ⟨.index 1, some .int64, none⟩

theorem reduce_eq_fold_of_calls_difference :
    Reachable difference ∧ difference.nin = 2 ∧ difference.nout = 1 ∧
      1 < NDArray.threeByTwo.transpose.rank ∧ alongRows.axis.Names 2 1 ∧
      ∃ out, answer (reduce NDArray.threeByTwo.transpose alongRows) difference = .ok (.array out) ∧
        out.dtype = .int64 ∧ out.shape = [2] ∧
        ∀ j, inBounds [2] j = true →
          IsTotal (stepOf (callOn difference) .int64) .int64 none
            (NDArray.threeByTwo.transpose.line 1 j) (out.element j) := by
  have hu : Reachable difference := .new _ _ _ Definition.parse_difference
  have haxis : alongRows.axis.Names 2 1 := .inl rfl
  obtain ⟨result, hr⟩ :
      ∃ r, answer (reduce NDArray.threeByTwo.transpose alongRows) difference = .ok r := by
    decide +kernel
  obtain ⟨hdtype, hshape, hscalar, htotals, -⟩ :=
    reduce_eq_fold_of_calls hu rfl rfl (by decide) haxis hr
  refine ⟨hu, rfl, rfl, by decide, haxis, ?_⟩
  cases result with
  | scalar s => cases hscalar
  | array out => exact ⟨out, hr, hdtype, hshape, htotals⟩

end Ufunc

end Pointwise

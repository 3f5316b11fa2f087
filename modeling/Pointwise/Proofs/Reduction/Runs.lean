import Pointwise.Proofs.Reduction.NamedAxes
import Pointwise.Proofs.Stateful

/-!
# Runs of reductions

A reduction depends on the state and changes it by its folds alone.
-/

namespace Pointwise

open Stateful

/-! ## Results -/

namespace Reduced

def dtype : Reduced → DType
  | scalar s => s.dtype
  | array a => a.dtype

def shape : Reduced → List Nat
  | scalar _ => []
  | array a => a.shape

def isScalar : Reduced → Bool
  | scalar _ => true
  | array _ => false

/-- The element at a coordinate of the shape. -/
def element : Reduced → List Nat → Scalar
  | scalar s, _ => s
  | array a, index => a.element index

end Reduced

namespace Reducer

variable {σ τ : Type} {R : σ → τ → Prop} {r : Reducer σ} {r' : Reducer τ}

/-- Reducers that differ in their folds alone, which agree. -/
structure Matches (R : σ → τ → Prop) (r : Reducer σ) (r' : Reducer τ) : Prop where
  name : r.name = r'.name
  identity : r.identity = r'.identity
  fold : ∀ total x, Agree R (r.fold total x) (r'.fold total x)

namespace Matches

theorem reduceLine (h : Matches R r r') (a : NDArray) (acc : DType) (initial : Option Scalar) :
    Agree R (r.reduceLine a acc initial) (r'.reduceLine a acc initial) := by
  have hstep : ∀ total x, Agree R (r.step acc total x) (r'.step acc total x) := by
    intro total x
    unfold step
    exact (h.fold total x).bind fun v => .pure _
  unfold Reducer.reduceLine seed?
  rw [h.identity, h.name]
  dsimp only
  split
  · exact .foldlM hstep _ _
  · split
    · exact .throw_bind _
    · exact .foldlM hstep _ _

theorem sweep (h : Matches R r r') (a : NDArray) (axis : Nat) (coordinates : List (List Nat))
    (out : NDArray) :
    Agree R (r.sweep a axis coordinates out) (r'.sweep a axis coordinates out) := by
  unfold Reducer.sweep
  dsimp only
  exact .foldlM (fun out index => (h.fold _ _).bind fun v => .pure _) _ _

theorem reduceAxis (h : Matches R r r') (a : NDArray) (axis : Nat) (acc : DType)
    (initial : Option Scalar) :
    Agree R (r.reduceAxis a axis acc initial) (r'.reduceAxis a axis acc initial) := by
  have hsweep := h.sweep a axis
  unfold Reducer.reduceAxis seed?
  rw [h.identity, h.name]
  dsimp only
  split
  · exact hsweep _ _
  · split
    · exact .pure _
    · split
      · exact .throw_bind _
      · exact hsweep _ _

theorem reduceAxes (h : Matches R r r') (a : NDArray) (axes : List Nat) (acc : DType)
    (initial : Option Scalar) :
    Agree R (r.reduceAxes a axes acc initial) (r'.reduceAxes a axes acc initial) := by
  induction a, axes, initial using Reducer.reduceAxes.induct with
  | case1 a axes initial hmin =>
    rw [Reducer.reduceAxes, Reducer.reduceAxes]
    split
    · exact .throw _
    · simp_all
  | case2 a axes initial least hmin ih =>
    rw [Reducer.reduceAxes, Reducer.reduceAxes]
    split
    · exact .throw _
    next least' hmin' =>
      obtain rfl : least = least' := Option.some.inj (hmin.symm.trans hmin')
      refine (h.reduceAxis a least acc initial).bind fun out => ?_
      split
      · exact .pure _
      · split
        · exact (h.reduceLine out acc none).bind fun v => .pure _
        · exact ih out

theorem run (h : Matches R r r') (a : NDArray) (options : ReduceOptions) :
    Agree R (r.run a options) (r'.run a options) := by
  have hline := (h.reduceLine a (options.dtype.getD a.dtype) options.initial).bind fun v =>
    Agree.pure (Reduced.scalar v)
  unfold Reducer.run checkReorderable
  rw [h.identity, h.name]
  dsimp only
  by_cases hzero : a.rank = 0
  · simp only [hzero, if_true]
    exact .throw_bind _
  rw [if_neg hzero, if_neg hzero]
  refine (Agree.liftM _).bind fun _ => ?_
  split
  · split
    · exact (Agree.liftM _).discard.bind fun _ => hline
    · exact (Agree.liftM _).discard.bind fun _ => hline
    · exact hline
    · exact hline
  · split
    · exact .throw _
    · exact (Agree.liftM _).bind fun k => (h.reduceAxis a k _ _).bind fun out => .pure _
    · exact (Agree.liftM _).bind fun ks => h.reduceAxes a ks _ _
    · exact h.reduceAxes a _ _ _

end Matches

/-! ## Reductions along named axes -/

variable {a : NDArray} {k : Nat} {dtype : Option DType} {initial : Option Scalar}
  {options : ReduceOptions}

theorem checkReorderable_of_isSingle {axis : Axis} (h : axis.isSingle = true) :
    r.checkReorderable axis = .ok () := by
  unfold checkReorderable
  rw [h, Bool.or_true, if_pos rfl]

theorem checkReorderable_of_identity (h : r.identity.isSome = true) (axis : Axis) :
    r.checkReorderable axis = .ok () := by
  unfold checkReorderable
  rw [h]
  rfl

theorem checkReorderable_eq_ok {axis : Axis}
    (h : r.identity.isSome = true ∨ axis.isSingle = true) : r.checkReorderable axis = .ok () :=
  h.elim (checkReorderable_of_identity · axis) checkReorderable_of_isSingle

theorem run_line (hrank : a.rank = 1)
    (hreorderable : r.identity.isSome = true ∨ options.axis.isSingle = true)
    (hvalid : options.axis.Valid 1) :
    r.run a options =
      Reduced.scalar <$> r.reduceLine a (options.dtype.getD a.dtype) options.initial := by
  obtain ⟨axis, dtype, initial⟩ := options
  have hcheck := checkReorderable_eq_ok hreorderable
  unfold run
  rw [if_neg (by omega), if_pos hrank]
  simp only [hcheck]
  cases axis with
  | index k =>
    simp only [Axis.check_of_range hvalid]
    rfl
  | several ks =>
    simp only [Axis.checkAll_of_valid hvalid]
    rfl
  | all | unspecified => rfl

theorem run_index (hrank : 1 < a.rank) (hk : k < a.rank) :
    r.run a ⟨.index k, dtype, initial⟩ =
      Reduced.array <$> r.reduceAxis a k (dtype.getD a.dtype) initial := by
  have hcheck : Axis.check a.rank k = .ok k := Axis.check_of_range (by omega)
  unfold run
  simp only [checkReorderable_of_isSingle (show (Axis.index k).isSingle = true from rfl), hcheck]
  rw [if_neg (by omega), if_neg (by omega)]
  rfl

theorem run_several (hrank : 1 < a.rank) {ks : List Int} {axes : List Nat}
    (hreorderable : r.checkReorderable (.several ks) = .ok ())
    (hks : Axis.checkAll a.rank ks = .ok axes) :
    r.run a ⟨.several ks, dtype, initial⟩ =
      r.reduceAxes a axes (dtype.getD a.dtype) initial := by
  unfold run
  simp only [hreorderable, hks]
  rw [if_neg (by omega), if_neg (by omega)]
  rfl

theorem run_all (hrank : 1 < a.rank) (hidentity : r.identity.isSome = true) :
    r.run a ⟨.all, dtype, initial⟩ =
      r.reduceAxes a (List.range a.rank) (dtype.getD a.dtype) initial := by
  unfold run
  simp only [checkReorderable_of_identity hidentity]
  rw [if_neg (by omega), if_neg (by omega)]
  rfl

theorem run_single (hrank : 1 < a.rank) (hk : k < a.rank) :
    r.run a ⟨.several [(k : Int)], dtype, initial⟩ = r.run a ⟨.index k, dtype, initial⟩ := by
  have hcheck : Axis.checkAll a.rank [(k : Int)] = .ok [k] := by
    unfold Axis.checkAll
    simp [Axis.check_of_range (show 0 ≤ (k : Int) ∧ (k : Int) < a.rank by omega)]
  rw [run_several hrank (checkReorderable_of_isSingle rfl) hcheck, run_index hrank hk, reduceAxes]
  split
  next hmin => cases hmin
  next least hmin =>
    obtain rfl : k = least := Option.some.inj hmin
    simp only [List.length_singleton, if_true]
    rfl

/-! ## Reductions along one axis -/

variable {s : σ} {result : Reduced}

theorem run_of_rank_one (hrank : a.rank = 1) (h : answer (r.run a options) s = .ok result) :
    ∃ v, result = .scalar v ∧
      answer (r.reduceLine a (options.dtype.getD a.dtype) options.initial) s = .ok v := by
  unfold run at h
  dsimp only at h
  rw [if_neg (by omega), answer_bind, answer_liftM, after_liftM] at h
  obtain ⟨_, -, h⟩ := bind_eq_ok.1 h
  rw [if_pos hrank] at h
  have hline : answer (do
      return Reduced.scalar (← r.reduceLine a (options.dtype.getD a.dtype) options.initial)) s =
        .ok result → ∃ v, result = .scalar v ∧
          answer (r.reduceLine a (options.dtype.getD a.dtype) options.initial) s = .ok v := by
    intro hs
    rw [answer_bind] at hs
    obtain ⟨v, hv, hs⟩ := bind_eq_ok.1 hs
    cases hs
    exact ⟨v, rfl, hv⟩
  split at h
  · rw [answer_bind, after_discard, after_liftM] at h
    obtain ⟨_, -, h⟩ := bind_eq_ok.1 h
    exact hline h
  · rw [answer_bind, after_discard, after_liftM] at h
    obtain ⟨_, -, h⟩ := bind_eq_ok.1 h
    exact hline h
  · exact hline h
  · exact hline h

theorem run_of_axis (hrank : 1 < a.rank) (hk : k < a.rank)
    (haxis : options.axis = .index k ∨ options.axis = .several [(k : Int)])
    (h : answer (r.run a options) s = .ok result) :
    ∃ out, result = .array out ∧
      answer (r.reduceAxis a k (options.dtype.getD a.dtype) options.initial) s = .ok out := by
  obtain ⟨axis, dtype, initial⟩ := options
  have hrun : r.run a ⟨axis, dtype, initial⟩ =
      Reduced.array <$> r.reduceAxis a k (dtype.getD a.dtype) initial := by
    rw [← run_index hrank hk]
    rcases haxis with rfl | rfl
    · rfl
    · exact run_single hrank hk
  rw [hrun, map_eq_pure_bind, answer_bind] at h
  obtain ⟨out, hout, h⟩ := bind_eq_ok.1 h
  cases h
  exact ⟨out, rfl, hout⟩

end Reducer

end Pointwise

import Pointwise.Proofs.Reduction.Axes

/-!
# Failing reductions

A reduction is refused for its axis before anything is folded, and it fails if there is a line to
fold but neither a start nor an element. All other errors are those of its steps.
-/

namespace Pointwise.Reducer

open Stateful

variable {σ : Type} {r : Reducer σ} {a : NDArray} {axis : Axis} {acc : DType}
  {initial : Option Scalar} {options : ReduceOptions} {k : Nat} {ks axes : List Nat} {s : σ}

/-! ## Refused axes -/

/-- The array has the axes, and the function can be reduced along them. -/
structure Admits (r : Reducer σ) (a : NDArray) (axis : Axis) : Prop where
  rank : 1 ≤ a.rank
  reorderable : r.identity.isSome = true ∨ axis.isSingle = true
  valid : axis.Valid a.rank

theorem checkReorderable_eq_error (h : ¬(r.identity.isSome = true ∨ axis.isSingle = true)) :
    r.checkReorderable axis = .error (.invalidAxis (.notReorderable r.name)) := by
  unfold checkReorderable
  rw [if_neg (by simpa using h)]

/-- A fold starts from a given value, from the identity or from an element, or there is no line to
fold. -/
def Starts (r : Reducer σ) (a : NDArray) (options : ReduceOptions) : Prop :=
  (options.initial.isSome = true ∨ r.identity.isSome = true) ∨
    ∃ k < a.rank, options.axis.Names a.rank k ∧
      (a.shape.getD k 0 ≠ 0 ∨ 2 ≤ a.rank ∧ size (removeAt k a.shape) = 0)

theorem isSome_seed? : (r.seed? initial acc).isSome = true ↔
    initial.isSome = true ∨ r.identity.isSome = true := by
  unfold seed?
  cases initial <;> simp

theorem run_of_not_admits (h : ¬r.Admits a options.axis) :
    ∃ p, r.run a options = throw (.invalidAxis p) := by
  unfold run
  by_cases hzero : a.rank = 0
  case pos => exact ⟨_, if_pos hzero⟩
  rw [if_neg hzero]
  by_cases hreorderable : r.identity.isSome = true ∨ options.axis.isSingle = true
  case neg =>
    rw [checkReorderable_eq_error hreorderable]
    exact ⟨_, rfl⟩
  rw [checkReorderable_eq_ok hreorderable]
  have hvalid : ¬options.axis.Valid a.rank := fun hv => h ⟨by omega, hreorderable, hv⟩
  obtain ⟨axis, dtype, initial⟩ := options
  cases axis with
  | index k =>
    have hcheck := Axis.check_of_not hvalid
    by_cases hone : a.rank = 1
    · rw [hone] at hcheck
      simp only [if_pos hone, hcheck]
      exact ⟨_, rfl⟩
    · simp only [if_neg hone, hcheck]
      exact ⟨_, rfl⟩
  | several ks =>
    obtain ⟨p, hcheck⟩ := Axis.checkAll_of_not hvalid
    by_cases hone : a.rank = 1
    · rw [hone] at hcheck
      simp only [if_pos hone, hcheck]
      exact ⟨_, rfl⟩
    · simp only [if_neg hone, hcheck]
      exact ⟨_, rfl⟩
  | all => exact absurd trivial hvalid
  | unspecified =>
    simp only [if_neg (show ¬a.rank = 1 from hvalid)]
    exact ⟨_, rfl⟩

theorem run_of_admits (h : r.Admits a options.axis) :
    (a.rank = 1 ∧ options.axis.Names a.rank 0 ∧ r.run a options =
      Reduced.scalar <$> r.reduceLine a (options.dtype.getD a.dtype) options.initial) ∨
    (1 < a.rank ∧ ∃ k, options.axis.Names a.rank k ∧ k < a.rank ∧ r.run a options =
      Reduced.array <$> r.reduceAxis a k (options.dtype.getD a.dtype) options.initial) ∨
    (1 < a.rank ∧ r.identity.isSome = true ∧ ∃ axes k ks, Sorts axes (k :: ks) a.rank ∧
      r.run a options = r.reduceAxes a axes (options.dtype.getD a.dtype) options.initial) := by
  obtain ⟨hrank, hreorderable, hvalid⟩ := h
  obtain ⟨axis, dtype, initial⟩ := options
  rcases Nat.eq_or_lt_of_le hrank with hone | hmany
  case inl =>
    have hvalid : Axis.Valid 1 axis := hone ▸ hvalid
    exact .inl ⟨hone.symm, hone ▸ Axis.names_zero hvalid,
      run_line hone.symm hreorderable hvalid⟩
  case inr =>
    cases axis with
    | index k =>
      obtain ⟨hlow, hhigh⟩ := hvalid
      obtain ⟨n, rfl⟩ := Int.eq_ofNat_of_zero_le hlow
      have hn : n < a.rank := by omega
      exact .inr (.inl ⟨hmany, n, .inl rfl, hn, run_index hmany hn⟩)
    | several ks =>
      by_cases hsingle : ∃ k, ks = [k]
      case pos =>
        obtain ⟨k, rfl⟩ := hsingle
        obtain ⟨hlow, hhigh⟩ := hvalid.2.2 k (.head _)
        obtain ⟨n, rfl⟩ := Int.eq_ofNat_of_zero_le hlow
        have hn : n < a.rank := by omega
        exact .inr (.inl ⟨hmany, n, .inr (.inl rfl), hn,
          (run_single hmany hn).trans (run_index hmany hn)⟩)
      case neg =>
        have hidentity := hreorderable.resolve_right fun h => hsingle (Axis.exists_of_isSingle h)
        obtain ⟨k, rest, hsorts⟩ := Sorts.exists_sorts_of_valid hvalid
        exact .inr (.inr ⟨hmany, hidentity, _, k, rest, hsorts,
          run_several hmany (checkReorderable_eq_ok hreorderable) (Axis.checkAll_of_valid hvalid)⟩)
    | all =>
      have hidentity := hreorderable.resolve_right (by simp [Axis.isSingle])
      obtain ⟨k, rest, hsorts⟩ := Sorts.exists_all (show a.rank ≠ 0 by omega)
      exact .inr (.inr ⟨hmany, hidentity, _, k, rest, hsorts, run_all hmany hidentity⟩)
    | unspecified =>
      have hone : a.rank = 1 := hvalid
      omega

/-! ## Failing steps -/

variable {bad : Error → σ → Prop}

/-- What every error of a step is, with the state that it leaves. -/
def StepsFail (r : Reducer σ) (bad : Error → σ → Prop) : Prop :=
  ∀ total x s, Ensures (r.fold total x) s (fun _ _ => True) bad

namespace StepsFail

variable (h : r.StepsFail bad)
include h

theorem reduceLine (hstart : (r.seed? initial acc).isSome = true ∨ a.shape.headD 0 ≠ 0) :
    Ensures (r.reduceLine a acc initial) s (fun _ _ => True) bad := by
  have hstep : ∀ (l : List Scalar) total, ∀ s,
      Ensures (l.foldlM (r.step acc) total) s (fun _ _ => True) bad := by
    intro l total s
    refine Ensures.foldlM (fun _ _ _ => True) (fun x l total t _ => ?_) trivial
    exact (h total x t).bind fun v t _ => Ensures.pure trivial
  unfold Reducer.reduceLine
  dsimp only
  cases hseed : r.seed? initial acc with
  | some seed => exact hstep _ _ _
  | none =>
    rw [hseed] at hstart
    rw [if_neg (hstart.resolve_left (by simp))]
    exact hstep _ _ _

theorem sweep (l : List (List Nat)) (out : NDArray) :
    Ensures (r.sweep a k l out) s (fun _ _ => True) bad := by
  unfold Reducer.sweep
  refine Ensures.foldlM (fun _ _ _ => True) (fun index l out t _ => ?_) trivial
  exact (h _ _ t).bind fun v t _ => Ensures.pure trivial

theorem reduceAxis (hstart : (r.seed? initial acc).isSome = true ∨ a.shape.getD k 0 ≠ 0 ∨
      size (removeAt k a.shape) = 0) :
    Ensures (r.reduceAxis a k acc initial) s (fun _ _ => True) bad := by
  unfold Reducer.reduceAxis
  dsimp only
  cases hseed : r.seed? initial acc with
  | some seed => exact h.sweep _ _
  | none =>
    rw [hseed] at hstart
    by_cases hsize : size (removeAt k a.shape) = 0
    case pos =>
      rw [if_pos hsize]
      exact Ensures.pure trivial
    case neg =>
      have hlength : a.shape.getD k 0 ≠ 0 :=
        (hstart.resolve_left (by simp)).resolve_right hsize
      rw [if_neg hsize, if_neg hlength]
      exact h.sweep _ _

theorem reduceAxes (hidentity : r.identity.isSome = true) (hsorts : Sorts axes (k :: ks) a.rank)
    (hrank : 1 < a.rank) : Ensures (r.reduceAxes a axes acc initial) s (fun _ _ => True) bad := by
  have hseed (initial : Option Scalar) : (r.seed? initial acc).isSome = true :=
    isSome_seed?.2 (.inr hidentity)
  -- The axes that are left are counted anew, so the induction is on their number.
  induction hn : ks.length using Nat.strong_induction_on generalizing a k ks axes initial s with
  | _ n ih =>
    subst hn
    have hk := hsorts.range k (.head _)
    have hstart : Ensures (r.reduceAxis a k acc initial) s (fun _ _ => True) bad :=
      h.reduceAxis (.inl (hseed initial))
    rw [reduceAxes_of_sorts hsorts]
    refine (hstart.and_of_ok fun out hout => rank_reduceAxis hk hout).bind ?_
    rintro out t ⟨hleft, -⟩
    cases ks with
    | nil => exact Ensures.pure trivial
    | cons k' ks =>
      rw [if_neg (List.cons_ne_nil _ _)]
      by_cases hone : out.rank = 1
      · rw [if_pos hone]
        exact (h.reduceLine (.inl (hseed none))).bind fun v t _ => Ensures.pure trivial
      · rw [if_neg hone]
        exact ih ks.length (by simp) (hleft ▸ hsorts).shift (by omega) (by simp)

theorem run (hadmits : r.Admits a options.axis) (hstarts : r.Starts a options) :
    Ensures (r.run a options) s (fun _ _ => True) bad := by
  rcases run_of_admits hadmits with ⟨hone, -, hrun⟩ | ⟨hmany, k, hnames, -, hrun⟩ |
    ⟨hmany, hidentity, axes, k, ks, hsorts, hrun⟩
  · have hstart : (r.seed? options.initial (options.dtype.getD a.dtype)).isSome = true ∨
        a.shape.headD 0 ≠ 0 := by
      rw [isSome_seed?]
      refine hstarts.imp_right ?_
      rintro ⟨k, hk, -, hlength | ⟨htwo, -⟩⟩
      · obtain rfl : k = 0 := by omega
        rwa [headD_eq_getD]
      · omega
    rw [hrun, map_eq_pure_bind]
    exact (h.reduceLine hstart).bind fun v t _ => Ensures.pure trivial
  · have hstart : (r.seed? options.initial (options.dtype.getD a.dtype)).isSome = true ∨
        a.shape.getD k 0 ≠ 0 ∨ size (removeAt k a.shape) = 0 := by
      rw [isSome_seed?]
      refine hstarts.imp_right ?_
      rintro ⟨k', -, hnames', hlength⟩
      obtain rfl : k' = k := Axis.names_inj hmany hnames' hnames
      exact hlength.imp_right And.right
    rw [hrun, map_eq_pure_bind]
    exact (h.reduceAxis hstart).bind fun v t _ => Ensures.pure trivial
  · rw [hrun]
    exact h.reduceAxes hidentity hsorts hmany

end StepsFail

/-! ## Nothing to start from -/

theorem run_of_not_starts (hadmits : r.Admits a options.axis) (h : ¬r.Starts a options) :
    answer (r.run a options) s = .error (.emptyReduction r.name) := by
  obtain ⟨hseeds, hlines⟩ := not_or.1 h
  have hseed : r.seed? options.initial (options.dtype.getD a.dtype) = none := by
    rw [← Option.not_isSome_iff_eq_none, isSome_seed?]
    exact hseeds
  rcases run_of_admits hadmits with ⟨hone, hnames, hrun⟩ | ⟨hmany, k, hnames, hk, hrun⟩ |
    ⟨hmany, hidentity, -⟩
  · have hempty : a.shape.headD 0 = 0 := by
      by_contra hne
      rw [headD_eq_getD] at hne
      exact hlines ⟨0, by omega, hnames, .inl hne⟩
    rw [hrun, answer_map, Reducer.reduceLine, hseed]
    simp only [if_pos hempty]
    rfl
  · have hempty : a.shape.getD k 0 = 0 := by
      by_contra hne
      exact hlines ⟨k, hk, hnames, .inl hne⟩
    have hsize : size (removeAt k a.shape) ≠ 0 := fun hzero =>
      hlines ⟨k, hk, hnames, .inr ⟨hmany, hzero⟩⟩
    rw [hrun, answer_map, Reducer.reduceAxis, hseed]
    simp only [if_neg hsize, if_pos hempty]
    rfl
  · exact absurd (.inr hidentity) hseeds

/-! ## Recorded steps -/

/-- The reducer that also keeps how each of its steps has ended. -/
def recording (r : Reducer σ) : Reducer (σ × List (Except Error Scalar)) where
  name := r.name
  identity := r.identity
  fold total x := ExceptT.mk do
    let (s, outcomes) ← get
    let (outcome, s) := (r.fold total x).run.run s
    set (s, outcomes ++ [outcome])
    return outcome

theorem matches_recording (r : Reducer σ) : Matches (fun s t => s = t.1) r r.recording where
  name := rfl
  identity := rfl
  fold total x := by
    rintro s ⟨_, outcomes⟩ rfl
    exact ⟨rfl, rfl⟩

theorem stepsFail_recording (r : Reducer σ) :
    r.recording.StepsFail fun e t => .error e ∈ t.2 := by
  rintro total x ⟨s, outcomes⟩
  have hanswer : answer (r.recording.fold total x) (s, outcomes) = answer (r.fold total x) s := rfl
  have hafter : (after (r.recording.fold total x) (s, outcomes)).2 =
      outcomes ++ [answer (r.fold total x) s] := rfl
  unfold Ensures
  rw [hanswer]
  cases houtcome : answer (r.fold total x) s with
  | ok v => exact Ends.ok trivial
  | error e =>
    have hlast : .error e ∈ (after (r.recording.fold total x) (s, outcomes)).2 := by
      rw [hafter, houtcome]
      exact List.mem_append_right _ (.head _)
    exact Ends.error hlast

/-- How the steps of a run end, one after the other. -/
def outcomes (r : Reducer σ) (a : NDArray) (options : ReduceOptions) (s : σ) :
    List (Except Error Scalar) :=
  (after (r.recording.run a options) (s, [])).2

theorem exists_ok_of_outcomes (hadmits : r.Admits a options.axis) (hstarts : r.Starts a options)
    (hsteps : ∀ outcome ∈ r.outcomes a options s, ∃ v, outcome = .ok v) :
    ∃ result, answer (r.run a options) s = .ok result := by
  have hanswer := ((matches_recording r).run a options s (s, []) rfl).1
  have hrun : Ensures (r.recording.run a options) (s, []) (fun _ _ => True)
      fun e t => .error e ∈ t.2 := r.stepsFail_recording.run
    ⟨hadmits.rank, hadmits.reorderable, hadmits.valid⟩ hstarts
  rw [hanswer]
  cases hr : answer (r.recording.run a options) (s, []) with
  | ok result => exact ⟨result, rfl⟩
  | error e =>
    obtain ⟨v, hv⟩ := hsteps _ (hrun.of_error hr)
    cases hv

end Pointwise.Reducer

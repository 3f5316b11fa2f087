import Pointwise.Proofs.NDArray.Reachable
import Pointwise.Proofs.Reduction.Bounds
import Pointwise.Proofs.Reduction.Failures
import Pointwise.Proofs.Ufunc.Calls

/-!
# Failing reductions by functions

If no step of its fold fails, a reduction fails for its axis or for want of a start, and for nothing
else.
-/

namespace Pointwise.Ufunc

open Stateful

variable {u : Ufunc} {a : NDArray}

/--
A reduction none of whose steps fails gives a result exactly if its axis is admitted and its folds
start. An axis that is not admitted is an invalid one, and otherwise the reduction is empty. Whether
steps fail or not, no index is out of bounds: it makes no difference if all of them are checked,
whatever a failing check is answered with.
-/
theorem reduce_eq_ok_iff (hin : u.nin = 2) (hout : u.nout = 1) (ha : NDArray.Reachable a)
    (options : ReduceOptions) :
    ((∀ outcome ∈ u.reducer.outcomes a options (u, none), ∃ v, outcome = .ok v) →
      ((∃ result, answer (reduce a options) u = .ok result) ↔
        u.reducer.Admits a options.axis ∧ u.reducer.Starts a options) ∧
      (¬u.reducer.Admits a options.axis →
        ∃ p, answer (reduce a options) u = .error (.invalidAxis p)) ∧
      (u.reducer.Admits a options.axis → ¬u.reducer.Starts a options →
        answer (reduce a options) u = .error (.emptyReduction u.name))) ∧
    ∀ e, answer (u.reducer.checkedRun e a options) (u, none) = answer (reduce a options) u := by
  rw [(reduce_eq a options hout hin).1]
  have hrefused (h : ¬u.reducer.Admits a options.axis) :
      ∃ p, answer (u.reducer.run a options) (u, none) = .error (.invalidAxis p) := by
    obtain ⟨p, hrun⟩ := Reducer.run_of_not_admits h
    exact ⟨p, by rw [hrun, answer_throw]⟩
  have hempty (hadmits : u.reducer.Admits a options.axis) (h : ¬u.reducer.Starts a options) :
      answer (u.reducer.run a options) (u, none) = .error (.emptyReduction u.name) :=
    Reducer.run_of_not_starts hadmits h
  refine ⟨fun hsteps => ⟨⟨?_, ?_⟩, hrefused, hempty⟩, fun e => ?_⟩
  · rintro ⟨result, hresult⟩
    have hadmits : u.reducer.Admits a options.axis := by
      by_contra h
      obtain ⟨p, hp⟩ := hrefused h
      cases hresult.symm.trans hp
    refine ⟨hadmits, ?_⟩
    by_contra h
    cases hresult.symm.trans (hempty hadmits h)
  · rintro ⟨hadmits, hstarts⟩
    exact Reducer.exists_ok_of_outcomes hadmits hstarts hsteps
  · rw [Reducer.checkedRun_eq ha.gapless]

/-! ## Differences along an axis -/

/-- Differences of three rows can be taken, differences of no columns cannot, and those along both
axes are refused, as a difference has no identity. -/
theorem reduce_eq_ok_iff_difference :
    difference.nin = 2 ∧ difference.nout = 1 ∧ NDArray.Reachable (.zeros .int64 [3, 2]) ∧
      NDArray.Reachable (.zeros .int64 [3, 0]) ∧
      (∀ outcome ∈ difference.reducer.outcomes (.zeros .int64 [3, 2]) ⟨.index 0, none, none⟩
        (difference, none), ∃ v, outcome = .ok v) ∧
      (∃ result, answer (reduce (.zeros .int64 [3, 2]) ⟨.index 0, none, none⟩) difference =
        .ok result) ∧
      difference.reducer.outcomes (.zeros .int64 [3, 0]) ⟨.index 1, none, none⟩ (difference, none) =
        [] ∧
      answer (reduce (.zeros .int64 [3, 0]) ⟨.index 1, none, none⟩) difference =
        .error (.emptyReduction "f") ∧
      difference.reducer.outcomes (.zeros .int64 [3, 0]) ⟨.all, none, none⟩ (difference, none) =
        [] ∧
      ∃ p, answer (reduce (.zeros .int64 [3, 0]) ⟨.all, none, none⟩) difference =
        .error (.invalidAxis p) := by
  have hrows : NDArray.Reachable (.zeros .int64 [3, 2]) := .zeros _ _
  have hcolumns : NDArray.Reachable (.zeros .int64 [3, 0]) := .zeros _ _
  have hsteps : ∀ outcome ∈ difference.reducer.outcomes (.zeros .int64 [3, 2])
      ⟨.index 0, none, none⟩ (difference, none), ∃ v, outcome = .ok v := by
    decide +kernel
  obtain ⟨hfirst, -⟩ := reduce_eq_ok_iff (u := difference) rfl rfl hrows ⟨.index 0, none, none⟩
  obtain ⟨hempty, -⟩ := reduce_eq_ok_iff (u := difference) rfl rfl hcolumns ⟨.index 1, none, none⟩
  obtain ⟨hrefused, -⟩ := reduce_eq_ok_iff (u := difference) rfl rfl hcolumns ⟨.all, none, none⟩
  have hnone : difference.reducer.outcomes (.zeros .int64 [3, 0]) ⟨.index 1, none, none⟩
      (difference, none) = [] := rfl
  have hnone' : difference.reducer.outcomes (.zeros .int64 [3, 0]) ⟨.all, none, none⟩
      (difference, none) = [] := rfl
  refine ⟨rfl, rfl, hrows, hcolumns, hsteps, ?_, hnone, ?_, hnone', ?_⟩
  · refine (hfirst hsteps).1.2 ⟨⟨by decide, .inr rfl, ?_⟩, .inr ⟨0, by decide, .inl rfl, .inl ?_⟩⟩
    · exact (by decide : (0 : Int) ≤ 0 ∧ (0 : Int) < (2 : Nat))
    · decide
  · refine (hempty (by rw [hnone]; nofun)).2.2 ⟨by decide, .inr rfl, ?_⟩ ?_
    · exact (by decide : (0 : Int) ≤ 1 ∧ (1 : Int) < (2 : Nat))
    · rintro ((h | h) | ⟨k, -, hnames, h⟩)
      · cases h
      · cases h
      · obtain rfl : k = 1 := Axis.names_inj (by decide) hnames (.inl rfl)
        revert h
        decide
  · refine (hrefused (by rw [hnone']; nofun)).2.1 ?_
    rintro ⟨-, h | h, -⟩
    · cases h
    · cases h

end Pointwise.Ufunc

import Pointwise.Proofs.Reduction.Fibres

/-!
# Reductions by a commutative operation

A reducer whose folds are a commutative operation does not fail, and its result holds the totals of
the fibres of all axes that it goes along.
-/

namespace Pointwise.Reducer

open NDArray (inBounds)
open Stateful

variable {σ : Type} {r : Reducer σ} {inv : σ → Prop} {t : DType} {op : Scalar → Scalar → Scalar}
  {start : Scalar} {a : NDArray} {k : Nat} {ks axes : List Nat} {s : σ}

/-- From the states of an invariant the reducer folds with a commutative operation, from its
identity on. -/
structure Folds (r : Reducer σ) (inv : σ → Prop) (t : DType) (op : Scalar → Scalar → Scalar)
    (start : Scalar) : Prop where
  commutative : CommutativeOn t op start
  seed : r.seed? none t = some start
  fold : ∀ x y, x.dtype = t → y.dtype = t → Answers inv (r.fold x y) (.ok (op x y))

namespace Folds

theorem identity (h : r.Folds inv t op start) : r.identity.isSome = true := by
  have hseed := h.seed
  unfold seed? at hseed
  cases hi : r.identity with
  | some e => rfl
  | none =>
    rw [hi] at hseed
    cases hseed

/-! ## One axis -/

theorem answers_reduceLine (h : r.Folds inv a.dtype op start) :
    Answers inv (r.reduceLine a a.dtype none) (.ok ((a.line 0 []).foldl op start)) := by
  have hitems : ∀ x ∈ a.line 0 [], x.dtype = a.dtype := fun x hx => NDArray.dtype_of_mem_line hx
  have hline := answers_line (r := r) (g := fun x y => .ok (op x y)) h.fold hitems
    h.commutative.dtype_start
  rw [h.commutative.foldlM_eq hitems h.commutative.dtype_start] at hline
  unfold reduceLine
  rw [h.seed, headD_eq_getD]
  exact hline

theorem reduceLine (h : r.Folds inv a.dtype op start) (hrank : a.rank = 1) (hs : inv s) :
    Succeeds (r.reduceLine a a.dtype none) s fun v t =>
      FibreTotals op start a [0] (.scalar v) ∧ inv t := by
  refine (h.answers_reduceLine.succeeds hs).mono ?_
  rintro v t ⟨rfl, ht⟩
  obtain ⟨n, hshape⟩ := List.length_eq_one_iff.1 hrank
  have hremove : removeAt 0 a.shape = [] := by rw [hshape, removeAt_zero]
  have hdtype := h.commutative.dtype_foldl (fun x hx => NDArray.dtype_of_mem_line hx)
    h.commutative.dtype_start (l := a.line 0 [])
  refine ⟨.of_line h.commutative (by simp [hshape]) ?_ hdtype hremove.symm fun j hj => ?_, ht⟩
  · rw [hrank]
    rfl
  · rw [hremove] at hj
    obtain rfl := List.eq_nil_of_length_eq_zero (length_of_inBounds hj)
    rfl

theorem reduceAxis (h : r.Folds inv a.dtype op start) (hk : k < a.rank) (hrank : 1 < a.rank)
    (hs : inv s) :
    Succeeds (r.reduceAxis a k a.dtype none) s fun out t =>
      FibreTotals op start a [k] (.array out) ∧ inv t := by
  have hall : ∀ i ∈ indices a.shape, inBounds a.shape i = true := fun i hi => mem_indices.1 hi
  have hfull := holdsTotals_full a k a.dtype start
  have hsweep := answers_sweep (r := r) (g := fun x y => .ok (op x y)) h.fold hk hall hfull
  have hok : sweepTotals (fun x y => .ok (op x y)) a k (indices a.shape)
      (.full a.dtype (removeAt k a.shape) start) = .ok _ := List.foldlM_pure
  obtain ⟨hout, hlines⟩ := sweepTotals_eq_ok hk hall hfull hok
  rw [hok] at hsweep
  unfold Reducer.reduceAxis
  rw [h.seed]
  refine (hsweep.succeeds hs).mono ?_
  rintro out t ⟨rfl, ht⟩
  refine ⟨.of_line h.commutative hk ?_ hout.dtype hout.shape fun j hj => ?_, ht⟩
  · exact (decide_eq_false (by omega)).symm
  · have hline := hlines j hj
    rw [filter_indices hk hj, NDArray.element_full hj,
      Scalar.cast_of_dtype h.commutative.dtype_start, List.map_map] at hline
    have hitems : ∀ x ∈ a.line k j, x.dtype = a.dtype := fun x hx => NDArray.dtype_of_mem_line hx
    have htotal := h.commutative.foldlM_eq hitems h.commutative.dtype_start
    exact (Except.ok.inj (htotal.symm.trans hline)).symm

/-! ## Several axes -/

theorem reduceAxes (h : r.Folds inv a.dtype op start) (haxes : Sorts axes (k :: ks) a.rank)
    (hrank : 1 < a.rank) (hs : inv s) :
    Succeeds (r.reduceAxes a axes a.dtype none) s fun result t =>
      FibreTotals op start a (k :: ks) result ∧ inv t := by
  -- The axes that are left are counted anew, so the induction is on their number.
  induction hn : ks.length using Nat.strong_induction_on generalizing a k ks axes s with
  | _ n ih =>
    subst hn
    have hk := haxes.range k (.head _)
    have hop := h.commutative
    rw [Reducer.reduceAxes_of_sorts haxes]
    refine (h.reduceAxis hk hrank hs).bind fun out t => ?_
    rintro ⟨hout, ht⟩
    have hdtype : out.dtype = a.dtype := hout.dtype
    have hleft := hout.rank_add_one hk
    have hshift : Sorts (shiftAxes k axes) (ks.map (· - 1)) out.rank := (hleft ▸ haxes).shift
    have hback : (ks.map (· - 1)).map (skip k) = ks := map_skip_pred fun i => haxes.least_lt
    have htrans {result : Reduced} (hr : FibreTotals op start out (ks.map (· - 1)) result) :
        FibreTotals op start a (k :: ks) result := by
      have htotals := hout.trans hop hk hr
      rwa [hback] at htotals
    cases ks with
    | nil => exact .pure ⟨hout, ht⟩
    | cons k' ks =>
      rw [if_neg (List.cons_ne_nil _ _), ← hdtype]
      have hnext : r.Folds inv out.dtype op start := hdtype ▸ h
      by_cases hone : out.rank = 1
      · rw [if_pos hone]
        refine (hnext.reduceLine hone ht).bind fun v t' => ?_
        rintro ⟨hv, ht'⟩
        refine .pure ⟨htrans ?_, ht'⟩
        rw [hone] at hshift
        rw [hshift.eq_of_rank_one (List.cons_ne_nil _ _)]
        exact hv
      · rw [if_neg hone]
        refine (ih ks.length (by simp) hnext hshift (by omega) ht (by simp)).mono ?_
        rintro result t' ⟨hresult, ht'⟩
        exact ⟨htrans hresult, ht'⟩

/-! ## Axes as they are named -/

theorem run_of_rank_one {axis : Axis} (h : r.Folds inv a.dtype op start) (hrank : a.rank = 1)
    (hvalid : axis.Valid 1) (hs : inv s) :
    Succeeds (r.run a ⟨axis, none, none⟩) s fun result t =>
      FibreTotals op start a [0] result ∧ inv t := by
  rw [Reducer.run_line hrank (.inl h.identity) hvalid, map_eq_pure_bind]
  exact (h.reduceLine hrank hs).bind fun v t ht => .pure ht

theorem run_index (h : r.Folds inv a.dtype op start) (hk : k < a.rank) (hs : inv s) :
    Succeeds (r.run a ⟨.index k, none, none⟩) s fun result t =>
      FibreTotals op start a [k] result ∧ inv t := by
  by_cases hrank : a.rank = 1
  · obtain rfl : k = 0 := by omega
    exact h.run_of_rank_one hrank (Axis.valid_index Nat.one_pos) hs
  · have hmany : 1 < a.rank := by omega
    rw [Reducer.run_index hmany hk, map_eq_pure_bind]
    exact (h.reduceAxis hk hmany hs).bind fun out t ht => .pure ht

theorem run_several (h : r.Folds inv a.dtype op start) (hne : axes ≠ []) (hdistinct : axes.Nodup)
    (hrange : ∀ k ∈ axes, k < a.rank) (hs : inv s) :
    Succeeds (r.run a ⟨.several (axes.map Int.ofNat), none, none⟩) s fun result t =>
      FibreTotals op start a axes result ∧ inv t := by
  obtain ⟨k, rest, hks⟩ := Sorts.exists_sorts_cons hne hdistinct hrange
  have hback : (axes.map Int.ofNat).map Int.toNat = axes := by
    rw [List.map_map]
    exact List.map_id axes
  by_cases hrank : a.rank = 1
  · have hone : k :: rest = [0] := by
      rw [hrank] at hks
      exact hks.eq_of_rank_one (List.cons_ne_nil _ _)
    obtain rfl : axes = [0] := List.perm_singleton.1 (hone ▸ hks.perm)
    exact h.run_of_rank_one hrank ⟨by simp, by simp, by simp⟩ hs
  · have hmany : 1 < a.rank := by
      have := hks.range k (.head _)
      omega
    have hcheck : Axis.checkAll a.rank (axes.map Int.ofNat) = .ok axes := by
      have hrange' : ∀ k ∈ axes.map Int.ofNat, 0 ≤ k ∧ k < (a.rank : Int) := by
        intro k hk
        obtain ⟨i, hi, rfl⟩ := List.mem_map.1 hk
        have hlt := hrange i hi
        simpa using hlt
      have hcheck := Axis.checkAll_of_range (by simpa using hne) hrange' (hback.symm ▸ hdistinct)
      rwa [hback] at hcheck
    rw [Reducer.run_several hmany (Reducer.checkReorderable_of_identity h.identity _) hcheck]
    refine (h.reduceAxes hks hmany hs).mono ?_
    rintro result t ⟨hresult, ht⟩
    exact ⟨hresult.of_perm hks.perm.symm, ht⟩

theorem run_all (h : r.Folds inv a.dtype op start) (hrank : a.rank ≠ 0) (hs : inv s) :
    Succeeds (r.run a ⟨.all, none, none⟩) s fun result t =>
      FibreTotals op start a (List.range a.rank) result ∧ inv t := by
  by_cases hone : a.rank = 1
  · rw [hone]
    exact h.run_of_rank_one hone trivial hs
  · have hmany : 1 < a.rank := by omega
    have hsorts := Sorts.all a.rank
    obtain ⟨n, hn⟩ := Nat.exists_eq_succ_of_ne_zero hrank
    have hrange : List.range a.rank = 0 :: (List.range n).map Nat.succ := by
      rw [hn, List.range_succ_eq_map]
    rw [Reducer.run_all hmany h.identity]
    conv at hsorts => enter [2]; rw [hrange]
    refine (h.reduceAxes hsorts hmany hs).mono ?_
    rw [← hrange]
    exact fun result t ht => ht

end Folds

end Pointwise.Reducer

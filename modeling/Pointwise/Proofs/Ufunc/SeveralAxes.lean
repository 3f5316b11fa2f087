import Pointwise.Proofs.Ufunc.Reductions
import Pointwise.Proofs.Ufunc.Registration

/-!
# Reductions along several axes

A reduction along several axes is one along each of them in turn, the least one first, whatever the
order in which they are named.
-/

namespace Pointwise

open Stateful
open Reducer (Sorts shiftAxes)

namespace Ufunc

/-- Reduces along one axis after the other, with accumulators of one type. Only the first reduction
uses `initial`. -/
def reduceInTurn (a : NDArray) (axes : List Nat) (dtype : Option DType) (initial : Option Scalar) :
    Action Reduced :=
  match axes with
  | [] => throw (.invalidAxis .noAxes)
  | k :: ks => do
    let r ← reduce a ⟨.index k, dtype, initial⟩
    reduceOneByOne (some (dtype.getD a.dtype)) r (ks.map (unskip k))

/-! ## One reduction after the other -/

/-- A reduction that goes on, and a function that starts the next one with the same loops. -/
structure InStep (u : Ufunc) (s : Ufunc × LastStep) (v : Ufunc) : Prop where
  same : s.1 = v
  remembers : Remembers s
  grown : Grown (· = none) u v

variable {u : Ufunc} {a : NDArray}

theorem agree_reduce (hout : u.nout = 1) (options : ReduceOptions) :
    Agree (InStep u) (u.reducer.run a options) (reduce a options) := by
  rintro ⟨v, last⟩ _ ⟨rfl, hremembers, hgrown⟩
  have hreducer : u.reducer = v.reducer := by
    unfold reducer name
    rw [hgrown.definition, hgrown.identity]
  have hout' : v.nout = 1 := (congrArg Definition.nout hgrown.definition).trans hout
  have hstable : Stable (Grown (· = none) u) := Grown.stable rfl
  have hgrown' : v = v ∧ Grown (· = none) u v := ⟨rfl, hgrown⟩
  -- The reduction on the right keeps no adapter at its start, and both would make the same ones.
  obtain ⟨hanswer, ⟨hsame, hafter⟩, hremembers', -⟩ :=
    (hstable.congruent.reducer hgrown').run a options (v, last) (v, none)
      ⟨hgrown', hremembers, .start hremembers.nin⟩
  obtain ⟨hreduce, hreduce'⟩ := reduce_eq a options hout' hremembers.nin
  rw [hreducer, hreduce, hreduce']
  exact ⟨hanswer, hsame, hremembers', hsame ▸ hafter⟩

theorem agree_reduceLine (hout : u.nout = 1) (hrank : a.rank = 1) (acc : DType) :
    Agree (InStep u) (do return Reduced.scalar (← u.reducer.reduceLine a acc none))
      (reduceOneByOne (some acc) (.array a) [0]) := by
  rw [reduceOneByOne_cons]
  have hline := agree_reduce (u := u) (a := a) hout ⟨.index 0, some acc, none⟩
  rw [Reducer.run_line hrank (.inr rfl) (Axis.valid_index Nat.one_pos)] at hline
  refine hline.map_bind fun s v _ => ?_
  rw [List.map_nil, reduceOneByOne_nil]
  exact .pure _

theorem agree_reduceAxes (hout : u.nout = 1) {k : Nat} {ks axes : List Nat}
    (haxes : Sorts axes (k :: ks) a.rank) (hrank : 1 < a.rank) (dtype : Option DType)
    (initial : Option Scalar) :
    Agree (InStep u) (u.reducer.reduceAxes a axes (dtype.getD a.dtype) initial)
      (reduceInTurn a (k :: ks) dtype initial) := by
  -- The axes that are left are counted anew, so the induction is on their number.
  induction hn : ks.length using Nat.strong_induction_on
    generalizing a k ks axes dtype initial with
  | _ n ih =>
    subst hn
    have hk := haxes.range k (.head _)
    have hfirst := agree_reduce (u := u) (a := a) hout ⟨.index k, dtype, initial⟩
    rw [Reducer.run_index hrank hk] at hfirst
    rw [Reducer.reduceAxes_of_sorts haxes]
    rw [reduceInTurn, map_unskip_of_lt fun i hi => haxes.least_lt hi]
    refine hfirst.map_bind fun s out hanswer => ?_
    have hleft := Reducer.rank_reduceAxis hk hanswer
    have hshift : Sorts (shiftAxes k axes) (ks.map (· - 1)) out.rank := (hleft ▸ haxes).shift
    cases ks with
    | nil =>
      rw [List.map_nil, reduceOneByOne_nil]
      exact .pure _
    | cons k' ks =>
      rw [if_neg (List.cons_ne_nil _ _)]
      by_cases hone : out.rank = 1
      · rw [if_pos hone]
        rw [hone] at hshift
        rw [hshift.eq_of_rank_one (List.cons_ne_nil _ _)]
        exact agree_reduceLine hout hone _
      · rw [if_neg hone, List.map_cons, reduceOneByOne_cons]
        exact ih ks.length (by simp) hshift (by omega) (some (dtype.getD a.dtype)) none (by simp)

/-! ## Shapes -/

theorem shape_reduceAxes {σ : Type} {r : Reducer σ} {acc : DType} {initial : Option Scalar} {s : σ}
    {k : Nat} {ks axes : List Nat} (haxes : Sorts axes (k :: ks) a.rank) (hrank : 1 < a.rank)
    {result : Reduced} (h : answer (r.reduceAxes a axes acc initial) s = .ok result) :
    result.isScalar = decide (ks.length + 1 = a.rank) ∧
      result.shape = removeAll (k :: ks) a.shape := by
  induction hn : ks.length using Nat.strong_induction_on generalizing a k ks axes initial s with
  | _ n ih =>
    subst hn
    have hk := haxes.range k (.head _)
    rw [Reducer.reduceAxes_of_sorts haxes, answer_bind] at h
    obtain ⟨out, hout, h⟩ := bind_eq_ok.1 h
    have hleft := Reducer.rank_reduceAxis hk hout
    have hshape : removeAll (k :: ks) a.shape = removeAll (ks.map (· - 1)) out.shape := by
      rw [(Reducer.shape_reduceAxis hout).1]
      exact removeAll_cons (fun i hi => haxes.least_lt hi) _
    have hshift : Sorts (shiftAxes k axes) (ks.map (· - 1)) out.rank := (hleft ▸ haxes).shift
    rw [hshape]
    cases ks with
    | nil =>
      cases h
      have hmore : ¬0 + 1 = a.rank := by omega
      exact ⟨(decide_eq_false hmore).symm, (removeAll_nil _).symm⟩
    | cons k' ks =>
      rw [if_neg (List.cons_ne_nil _ _)] at h
      by_cases hone : out.rank = 1
      · rw [if_pos hone, answer_bind] at h
        obtain ⟨v, -, h⟩ := bind_eq_ok.1 h
        cases h
        rw [hone] at hshift
        have hlast := hshift.eq_of_rank_one (List.cons_ne_nil _ _)
        have hlength := congrArg List.length hlast
        rw [List.length_map, List.length_singleton] at hlength
        obtain ⟨n, hn⟩ := List.length_eq_one_iff.1 hone
        rw [hlast, hn, hlength, ← hleft, hone]
        exact ⟨rfl, rfl⟩
      · rw [if_neg hone] at h
        obtain ⟨hscalar, hresult⟩ := ih ks.length (by simp) hshift (by omega) h (by simp)
        refine ⟨?_, hresult⟩
        rw [hscalar, ← hleft]
        simp

/-! ## Reductions as they are asked for -/

theorem checkAll_of_perm {rank : Nat} {axes : List Nat} {ks : List Int} (haxes : axes ≠ [])
    (hsorted : axes.Pairwise (· < ·)) (hrange : ∀ k ∈ axes, k < rank)
    (hks : ks.Perm (axes.map Int.ofNat)) :
    Sorts (ks.map Int.toNat) axes rank ∧ Axis.checkAll rank ks = .ok (ks.map Int.toNat) := by
  have hperm : (ks.map Int.toNat).Perm axes := by
    have hmap := hks.map Int.toNat
    rw [List.map_map] at hmap
    simpa [Function.comp_def] using hmap
  refine ⟨⟨hperm, hsorted, hrange⟩, Axis.checkAll_of_range ?_ ?_ ?_⟩
  · rintro rfl
    exact haxes (List.nil_perm.1 hperm)
  · intro k hk
    obtain ⟨i, hi, rfl⟩ := List.mem_map.1 (hks.mem_iff.1 hk)
    have hlt := hrange i hi
    simpa using hlt
  · exact hperm.nodup_iff.2 (hsorted.imp Nat.ne_of_lt)

section

variable (hu : Reachable u) (hin : u.nin = 2) (hout : u.nout = 1)
  (hidentity : u.identity.isSome = true)
include hu hin hout hidentity

theorem reduce_several {axes : List Nat} (hsorted : axes.Pairwise (· < ·))
    (hlength : 2 ≤ axes.length) (hrange : ∀ k ∈ axes, k < a.rank) {ks : List Int}
    (hks : ks.Perm (axes.map Int.ofNat)) (dtype : Option DType) (initial : Option Scalar) :
    answer (reduce a ⟨.several ks, dtype, initial⟩) u =
        answer (reduceInTurn a axes dtype initial) u ∧
      after (reduce a ⟨.several ks, dtype, initial⟩) u =
        after (reduceInTurn a axes dtype initial) u ∧
      ∀ result, answer (reduce a ⟨.several ks, dtype, initial⟩) u = .ok result →
        result.isScalar = decide (axes.length = a.rank) ∧
          result.shape = removeAll axes a.shape := by
  obtain ⟨k, rest, rfl⟩ := List.exists_cons_of_length_pos (Nat.lt_of_lt_of_le Nat.two_pos hlength)
  obtain ⟨haxes, hcheck⟩ := checkAll_of_perm (List.cons_ne_nil _ _) hsorted hrange hks
  have hrank := haxes.one_lt_rank hlength
  obtain ⟨hreduce, hreduce'⟩ := reduce_eq a ⟨.several ks, dtype, initial⟩ hout hin
  have hstart : InStep u (u, none) u := ⟨rfl, .start hin, .refl hu.coherent⟩
  obtain ⟨hanswer, hafter, -⟩ :=
    agree_reduceAxes hout haxes hrank dtype initial _ _ hstart
  have hreorderable := Reducer.checkReorderable_of_identity (r := u.reducer) hidentity (.several ks)
  rw [hreduce, hreduce', Reducer.run_several hrank hreorderable hcheck]
  exact ⟨hanswer, hafter, fun result => shape_reduceAxes haxes hrank⟩

/--
A reduction along several axes, in whatever order they are named, is one along the least of them
and then one along each of the others, as they are counted in what is left, from the identity and
with an accumulator of the same type. What is left of the shape is what is at the other positions,
and it is a scalar if there are none. All axes are those from the first to the last.
-/
theorem reduce_eq_reduceInTurn {axes : List Nat} (hsorted : axes.Pairwise (· < ·))
    (hlength : 2 ≤ axes.length) (hrange : ∀ k ∈ axes, k < a.rank) {ks : List Int}
    (hks : ks.Perm (axes.map Int.ofNat)) (dtype : Option DType) (initial : Option Scalar) :
    (answer (reduce a ⟨.several ks, dtype, initial⟩) u =
        answer (reduceInTurn a axes dtype initial) u ∧
      after (reduce a ⟨.several ks, dtype, initial⟩) u =
        after (reduceInTurn a axes dtype initial) u) ∧
    (∀ result, answer (reduce a ⟨.several ks, dtype, initial⟩) u = .ok result →
      result.isScalar = decide (axes.length = a.rank) ∧ result.shape = removeAll axes a.shape) ∧
    (∀ ks' : List Int, ks'.Perm ks →
      answer (reduce a ⟨.several ks', dtype, initial⟩) u =
        answer (reduce a ⟨.several ks, dtype, initial⟩) u ∧
      after (reduce a ⟨.several ks', dtype, initial⟩) u =
        after (reduce a ⟨.several ks, dtype, initial⟩) u) ∧
    (answer (reduce a ⟨.all, dtype, initial⟩) u =
        answer (reduce a ⟨.several ((List.range a.rank).map Int.ofNat), dtype, initial⟩) u ∧
      after (reduce a ⟨.all, dtype, initial⟩) u =
        after (reduce a ⟨.several ((List.range a.rank).map Int.ofNat), dtype, initial⟩) u) := by
  obtain ⟨hanswer, hafter, hshape⟩ :=
    reduce_several hu hin hout hidentity hsorted hlength hrange hks dtype initial
  refine ⟨⟨hanswer, hafter⟩, hshape, ?reordered, ?all⟩
  case reordered =>
    intro ks' hks'
    obtain ⟨hanswer', hafter', -⟩ := reduce_several hu hin hout hidentity hsorted hlength hrange
      (hks'.trans hks) dtype initial
    exact ⟨hanswer'.trans hanswer.symm, hafter'.trans hafter.symm⟩
  case all =>
    have hrank := Sorts.one_lt_rank ⟨List.Perm.refl axes, hsorted, hrange⟩ hlength
    have hcheck : Axis.checkAll a.rank ((List.range a.rank).map Int.ofNat) =
        .ok (List.range a.rank) := by
      have hne : List.range a.rank ≠ [] := by
        rw [ne_eq, List.range_eq_nil]
        omega
      have hcheck := (checkAll_of_perm hne List.pairwise_lt_range (fun k => List.mem_range.1)
        (List.Perm.refl _)).2
      rw [List.map_map] at hcheck
      simpa [Function.comp_def] using hcheck
    have hrun : u.reducer.run a ⟨.all, dtype, initial⟩ =
        u.reducer.run a ⟨.several ((List.range a.rank).map Int.ofNat), dtype, initial⟩ := by
      have hreorderable := Reducer.checkReorderable_of_identity (r := u.reducer) hidentity
      rw [Reducer.run_all hrank hidentity, Reducer.run_several hrank (hreorderable _) hcheck]
    obtain ⟨hreduce, hreduce'⟩ := reduce_eq (u := u) a ⟨.all, dtype, initial⟩ hout hin
    obtain ⟨hseveral, hseveral'⟩ := reduce_eq (u := u) a
      ⟨.several ((List.range a.rank).map Int.ofNat), dtype, initial⟩ hout hin
    rw [hreduce, hreduce', hseveral, hseveral', hrun]
    exact ⟨rfl, rfl⟩

end

end Ufunc

/-! ## Two of three axes -/

def NDArray.cube : NDArray :=
  ⟨.int16, [2, 2, 2], [2, 8, 4], #[1, 0, 2, 0, 3, 0, 4, 0, 5, 0, 6, 0, 7, 0, 8, 0]⟩

namespace Ufunc

def differenceFromZero : Ufunc := new .difference .empty (some (.int64 0)) .default

theorem reduce_eq_reduceInTurn_difference :
    Reachable differenceFromZero ∧ differenceFromZero.nin = 2 ∧ differenceFromZero.nout = 1 ∧
      differenceFromZero.identity.isSome = true ∧ [0, 2].Pairwise (· < ·) ∧ 2 ≤ [0, 2].length ∧
      (∀ k ∈ [0, 2], k < NDArray.cube.rank) ∧ [2, 0].Perm ([0, 2].map Int.ofNat) ∧
      ∃ out, answer (reduce NDArray.cube ⟨.several [2, 0], some .int32, none⟩) differenceFromZero =
          .ok (.array out) ∧
        answer (reduceInTurn NDArray.cube [0, 2] (some .int32) none) differenceFromZero =
          .ok (.array out) ∧
        out.shape = [2] := by
  have hu : Reachable differenceFromZero := .new _ _ _ Definition.parse_difference
  have hsorted : [0, 2].Pairwise (· < ·) := by decide
  have hrange : ∀ k ∈ [0, 2], k < NDArray.cube.rank := by decide
  have hperm : [2, 0].Perm ([0, 2].map Int.ofNat) := .swap _ _ _
  obtain ⟨⟨hturn, -⟩, hshape, -⟩ := reduce_eq_reduceInTurn hu rfl rfl rfl hsorted (Nat.le_refl 2)
    hrange hperm (some .int32) none
  obtain ⟨result, hr⟩ : ∃ r, answer (reduce NDArray.cube ⟨.several [2, 0], some .int32, none⟩)
      differenceFromZero = .ok r := by
    decide +kernel
  obtain ⟨hscalar, hresult⟩ := hshape result hr
  refine ⟨hu, rfl, rfl, rfl, hsorted, Nat.le_refl 2, hrange, hperm, ?_⟩
  cases result with
  | scalar s => cases hscalar
  | array out => exact ⟨out, hr, hturn.symm.trans hr, hresult⟩

end Ufunc

end Pointwise

import Pointwise.Proofs.Reduction.Totals
import Pointwise.Proofs.Ufunc.Reductions

/-!
# Reductions by commutative functions

If the calls on two elements of a type, converted to the type, are an associative and commutative
operation that the identity starts, the order of the axes and of the elements does not matter.
-/

namespace Pointwise

open Stateful
open NDArray (inBounds)

namespace Ufunc

variable {u v : Ufunc} {e x y : Scalar} {t : DType} {l : Loop} {op : Scalar → Scalar → Scalar}
  {a : NDArray} {options : ReduceOptions}

/-! ## Folds that one loop serves -/

/-- A reduction in which all calls on two elements of a type are served by the same loop. -/
structure Serving (e : Scalar) (t : DType) (l : Loop) (s : Ufunc × LastStep) : Prop where
  coherent : Coherent s.1
  nin : s.1.nin = 2
  identity : s.1.identity = some e
  serves : ∃ v, Serves s.1 [t, t] l v
  last : s.2 = none ∨ s.2 = some ((t, t), ⟨[t, t], t, l⟩)

namespace Serving

variable {s : Ufunc × LastStep}

theorem restart (h : Serving e t l s) : Serving e t l (s.1, none) :=
  ⟨h.coherent, h.nin, h.identity, h.serves, .inl rfl⟩

theorem after_foldAdapter {last : LastStep} (h : Serving e t l (v, last)) :
    answer (foldAdapter t t) v = .ok ⟨[t, t], t, l⟩ ∧
      Serving e t l (after (foldAdapter t t) v, some ((t, t), ⟨[t, t], t, l⟩)) := by
  obtain ⟨v', hserves⟩ := h.serves
  obtain ⟨hanswer, hafter⟩ := hserves.foldAdapter h.coherent h.nin
  obtain ⟨hcoherent, hhas, -, hfind⟩ := h.coherent.serves hserves
  have hsame := sameButAdapters_after_adapterFor v' ⟨[t, t], some t⟩ l
  have hdefinition : v'.definition = v.definition := by cases hserves <;> rfl
  have hidentity : v'.identity = v.identity := by cases hserves <;> rfl
  refine ⟨hanswer, ?_, ?_, ?_, ?_, .inr rfl⟩
  · rw [hafter]
    exact hcoherent.adapterFor hhas _
  · rw [hafter, hsame]
    exact (congrArg Definition.nin hdefinition).trans h.nin
  · rw [hafter, hsame]
    exact hidentity.trans h.identity
  · refine ⟨_, .found ?_⟩
    rw [hafter]
    exact (find?_after_adapterFor _ _).trans hfind

theorem answers_foldStep (e : Scalar) (l : Loop) (hx : x.dtype = t) (hy : y.dtype = t) :
    Answers (Serving e t l) (foldStep x y) (Adapter.call ⟨[t, t], t, l⟩ [x, y]) := by
  subst hx
  rintro ⟨v, last⟩ hs
  unfold Ensures
  rcases hs.last with hnone | hlast
  · obtain rfl : last = none := hnone
    obtain ⟨hadapter, hafter⟩ := hs.after_foldAdapter
    have hstep := (Remembers.start hs.nin).foldStep_eq x y
    rw [hy, hadapter] at hstep
    rw [hstep.1, hstep.2, ok_bind]
    cases Adapter.call ⟨[x.dtype, x.dtype], x.dtype, l⟩ [x, y] with
    | error err => exact rfl
    | ok w => exact ⟨rfl, hafter⟩
  · obtain rfl : last = some ((x.dtype, x.dtype), ⟨[x.dtype, x.dtype], x.dtype, l⟩) := hlast
    have hstep := foldStep_later (u := v) x y ⟨[x.dtype, x.dtype], x.dtype, l⟩
    rw [hy] at hstep
    rw [hstep.1, hstep.2]
    cases Adapter.call ⟨[x.dtype, x.dtype], x.dtype, l⟩ [x, y] with
    | error err => exact rfl
    | ok w => exact ⟨rfl, hs⟩

theorem folds {s : Ufunc × LastStep} (hs : Serving e t l s) (hop : CommutativeOn t op (e.cast t))
    (hcall : ∀ x y, x.dtype = t → y.dtype = t →
      Adapter.call ⟨[t, t], t, l⟩ [x, y] = .ok (op x y)) :
    s.1.reducer.Folds (Serving e t l) t op (e.cast t) where
  commutative := hop
  seed := by
    unfold Reducer.seed? reducer
    rw [hs.identity]
    rfl
  fold x y hx hy := by
    rw [← hcall x y hx hy]
    exact answers_foldStep e l hx hy

theorem reduce {good : Reduced → Prop} (hs : Serving e t l (v, none))
    (h : Succeeds (v.reducer.run a options) (v, none) fun r s => good r ∧ Serving e t l s) :
    Succeeds (reduce a options) v fun r w => good r ∧ Serving e t l (w, none) := by
  obtain ⟨v', hserves⟩ := hs.serves
  obtain ⟨hanswer, hafter⟩ :=
    reduce_eq a options (hs.coherent.nout_of_serves hserves) hs.nin
  obtain ⟨r, hr, hgood, hs'⟩ := h.exists_ok
  unfold Succeeds Ensures
  rw [hanswer, hafter, hr]
  exact ⟨hgood, hs'.restart⟩

end Serving

/-! ## Commutative functions -/

/-- On the elements of a type the function is an associative and commutative operation, with its
identity as the neutral element. What a call on two of them returns is converted to the type. -/
structure CommutesOn (u : Ufunc) (e : Scalar) (t : DType) (op : Scalar → Scalar → Scalar) :
    Prop where
  step : ∀ x y, x.dtype = t → y.dtype = t → stepOf (callOn u) t x y = .ok (op x y)
  assoc : ∀ x y z, x.dtype = t → y.dtype = t → z.dtype = t → op (op x y) z = op x (op y z)
  comm : ∀ x y, x.dtype = t → y.dtype = t → op x y = op y x
  neutral : ∀ x, x.dtype = t → op (e.cast t) x = x

namespace CommutesOn

theorem commutativeOn (h : u.CommutesOn e t op) : CommutativeOn t op (e.cast t) where
  dtype_start := Scalar.dtype_cast e t
  dtype_op x y hx hy := Reducer.dtype_stepOf (h.step x y hx hy)
  assoc := h.assoc
  comm := h.comm
  neutral := h.neutral

theorem exists_serving (hu : Coherent u) (hin : u.nin = 2) (he : u.identity = some e)
    (h : u.CommutesOn e t op) :
    ∃ l, Serving e t l (u, none) ∧ ∀ x y, x.dtype = t → y.dtype = t →
      Adapter.call ⟨[t, t], t, l⟩ [x, y] = .ok (op x y) := by
  have ht := Scalar.dtype_cast e t
  have hlen : [Operand.scalar (e.cast t), .scalar (e.cast t)].length = u.nin := hin.symm
  have hserved : ∃ l u', Serves u [t, t] l u' := by
    have hstep := h.step _ _ ht ht
    unfold stepOf callOn at hstep
    cases hcall : answer (call [.scalar (e.cast t), .scalar (e.cast t)] []) u with
    | error err =>
      rw [hcall] at hstep
      cases hstep
    | ok r =>
      have hserves := serves_of_answer hlen hcall
      simpa [Operand.dtype] using hserves
  obtain ⟨l, u', hserves⟩ := hserved
  refine ⟨l, ⟨hu, hin, he, ⟨u', hserves⟩, .inl rfl⟩, fun x y hx hy => ?_⟩
  have htypes : [x.dtype, y.dtype] = [t, t] := by rw [hx, hy]
  have hcall : callOn u x y = Adapter.call ⟨[t, t], l.ret, l⟩ [x, y] := by
    rw [← htypes] at hserves ⊢
    exact callOn_of_serves hu hin hserves
  rw [← h.step x y hx hy, stepOf, hcall, ← Adapter.call_eq_map]

end CommutesOn

/-! ## One axis at a time -/

/-- Reductions along one axis at a time give the totals of the fibres of all axes. -/
theorem Serving.reduceOneByOne (ht : a.dtype = t) (hs : Serving e t l (v, none))
    (hop : CommutativeOn t op (e.cast t))
    (hcall : ∀ x y, x.dtype = t → y.dtype = t →
      Adapter.call ⟨[t, t], t, l⟩ [x, y] = .ok (op x y))
    {axes : List Nat} (hne : axes ≠ []) (hdistinct : axes.Nodup) (hrange : ∀ k ∈ axes, k < a.rank) :
    Succeeds (reduceOneByOne none (.array a) axes) v fun r _ =>
      FibreTotals op (e.cast t) a axes r := by
  -- The axes that are left are counted anew, so the induction is on their number.
  induction hn : axes.length using Nat.strong_induction_on generalizing a v axes with
  | _ n ih =>
    subst hn
    subst ht
    obtain ⟨k, ks, rfl⟩ := List.exists_cons_of_ne_nil hne
    obtain ⟨hk, hks⟩ := List.forall_mem_cons.1 hrange
    obtain ⟨hfresh, hdistinct⟩ := List.nodup_cons.1 hdistinct
    have hback : (ks.map (unskip k)).map (skip k) = ks := map_skip_unskip hfresh
    rw [reduceOneByOne_cons]
    refine (hs.reduce ((hs.folds hop hcall).run_index hk hs)).bind fun r w => ?_
    rintro ⟨hr, hw⟩
    cases ks with
    | nil =>
      rw [List.map_nil, reduceOneByOne_nil]
      exact .pure hr
    | cons k' ks =>
      have hmany : 1 < a.rank := by
        have hk' := hks k' (.head _)
        have hne : k ≠ k' := fun h => hfresh (h ▸ .head _)
        omega
      cases r with
      | scalar x =>
        have hscalar := hr.isScalar
        rw [decide_eq_false (by simp; omega)] at hscalar
        cases hscalar
      | array out =>
        have hleft := hr.rank_add_one hk
        have hdistinct' : ((k' :: ks).map (unskip k)).Nodup := by
          refine List.Nodup.of_map (skip k) ?_
          rwa [hback]
        have hrange' : ∀ i ∈ (k' :: ks).map (unskip k), i < out.rank := by
          intro i hi
          obtain ⟨i', hi', rfl⟩ := List.mem_map.1 hi
          refine unskip_lt (hleft ▸ hk) (hleft ▸ hks i' hi') ?_
          rintro rfl
          exact hfresh hi'
        refine (ih (ks.length + 1) (by simp) hr.dtype hw (by simp) hdistinct' hrange'
          (by simp)).mono fun r' _ hr' => ?_
        have htotals := hr.trans hop hk hr'
        rwa [hback] at htotals

/-! ## Whole reductions -/

namespace CommutesOn

variable (h : u.CommutesOn e a.dtype op) (hu : Coherent u) (hin : u.nin = 2)
  (he : u.identity = some e)
include h hu hin he

theorem reduce_all (hrank : a.rank ≠ 0) {elements : List Scalar}
    (helements : elements.Perm a.toScalars) :
    answer (reduce a ⟨.all, none, none⟩) u =
      .ok (.scalar (elements.foldl op (e.cast a.dtype))) := by
  obtain ⟨l, hs, hcall⟩ := h.exists_serving hu hin he
  have hrun := (hs.folds h.commutativeOn hcall).run_all hrank hs
  obtain ⟨r, hr, htotals, -⟩ := (hs.reduce hrun).exists_ok
  have hscalar := htotals.isScalar
  rw [List.length_range, decide_eq_true rfl] at hscalar
  cases r with
  | array out => cases hscalar
  | scalar x =>
    rw [hr]
    exact congrArg (Except.ok ∘ Reduced.scalar)
      (htotals.element [] rfl elements (a.fibre_range.symm ▸ helements))

theorem reduce_several {axes : List Nat} (hne : axes ≠ []) (hdistinct : axes.Nodup)
    (hrange : ∀ k ∈ axes, k < a.rank) :
    ∃ result, answer (reduce a ⟨.several (axes.map Int.ofNat), none, none⟩) u = .ok result ∧
      FibreTotals op (e.cast a.dtype) a axes result ∧
      ∀ order, order.Perm axes → ∃ result',
        answer (Ufunc.reduceOneByOne none (.array a) order) u = .ok result' ∧
          result.Alike result' := by
  obtain ⟨l, hs, hcall⟩ := h.exists_serving hu hin he
  have hrun := (hs.folds h.commutativeOn hcall).run_several hne hdistinct hrange hs
  obtain ⟨result, hresult, htotals, -⟩ := (hs.reduce hrun).exists_ok
  refine ⟨result, hresult, htotals, fun order horder => ?_⟩
  have hne' : order ≠ [] := fun hnil => hne (List.nil_perm.1 (hnil ▸ horder))
  have hrange' : ∀ k ∈ order, k < a.rank := fun k hk => hrange k (horder.mem_iff.1 hk)
  obtain ⟨result', hresult', htotals'⟩ := (hs.reduceOneByOne rfl h.commutativeOn hcall hne'
    (horder.nodup_iff.2 hdistinct) hrange').exists_ok
  exact ⟨result', hresult', htotals.alike (htotals'.of_perm horder)⟩

end CommutesOn

end Ufunc

end Pointwise

import Pointwise.Proofs.Loop.Sums
import Pointwise.Proofs.NDArray.Reachable
import Pointwise.Proofs.Ufunc.CommutativeFolds
import Pointwise.Proofs.Ufunc.SeveralAxes

/-!
# Reductions by sums

A function that adds is commutative on every type of integers for which it has a loop or can compile
one, and a reduction along all axes is then the sum of all elements, wrapped once. Where loops for
floating-point numbers add integers, the total need not wrap.
-/

namespace Pointwise

open Stateful

namespace Ufunc

variable {u v : Ufunc} {e x y : Scalar} {t : DType} {l : Loop} {op : Scalar → Scalar → Scalar}
  {a : NDArray}

/-! ## Functions that add -/

/-- Calls on two elements of the type are served by a loop for this type, or by one that adds and
returns integers. -/
def AddsIntegers (u : Ufunc) (t : DType) : Prop :=
  ∀ l, u.find? [t, t] = some l → l.args = [t, t] ∨
    ∃ s s', l.args = [s, s'] ∧ (s.promote s').isInteger = true ∧ l.ret.isInteger = true

theorem addsIntegers_of_own (hu : Coherent u)
    (hown : u.frozen = false ∨ (u.table.get? [t, t]).isSome = true) : u.AddsIntegers t := by
  intro l hfind
  have hget : u.table.get? [t, t] = some l := by
    rcases hown with hfrozen | hsome
    · rwa [find?_of_not_frozen hfrozen] at hfind
    · obtain ⟨m, hm⟩ := Option.isSome_iff_exists.1 hsome
      rw [find?_of_get? hm] at hfind
      rwa [hm]
  exact .inl (hu.loop hget).1

theorem compile_of_serves (hu : Compiled u) {ts : List DType} (h : Serves u ts l v) :
    ∃ options ret, Loop.compile u.definition u.hosts options l.args ret = .ok l := by
  cases h with
  | found hfind => exact hu.loop (hu.coherent.find? hfind).1
  | compiled _ hl => exact ⟨_, _, hl.args_eq.symm ▸ hl.compiled⟩

namespace CommutesOn

section

variable {options : Options} {ret : Option DType} {hosts : HostTable} (h : u.CommutesOn e t op)
  (hzero : e.IsZero) (ht : t.isInteger = true) (hsum : u.definition.IsSum)
  (hcall : ∀ x y, x.dtype = t → y.dtype = t → Adapter.call ⟨[t, t], t, l⟩ [x, y] = .ok (op x y))
include h hzero ht hsum hcall

theorem eq_plus_of_own (hl : Loop.compile u.definition hosts options [t, t] ret = .ok l)
    (hx : x.dtype = t) (hy : y.dtype = t) : op x y = Scalar.plus t x y := by
  have hplus := Scalar.commutativeOn_plus ht
  have hop : ∀ {x y}, x.dtype = t → y.dtype = t →
      op x y = ((Scalar.plus t x y).cast l.ret).cast t := by
    intro x y hx hy
    have hadapter := Loop.adapter_call_plus hsum ht hl hx hy t
    exact Except.ok.inj ((hcall x y hx hy).symm.trans hadapter)
  -- As the identity is neutral, the return type of the loop loses nothing.
  have hkept : ∀ {z : Scalar}, z.dtype = t → (z.cast l.ret).cast t = z := by
    intro z hz
    have hneutral := h.neutral z hz
    rw [Scalar.cast_of_isZero ht hzero] at hneutral
    rwa [hop hplus.dtype_start hz, hplus.neutral z hz] at hneutral
  rw [hop hx hy, hkept (hplus.dtype_op x y hx hy)]

variable {s s' : DType} (hl : Loop.compile u.definition hosts options [s, s'] ret = .ok l)
  (hs : t.castsSafely s = true) (hs' : t.castsSafely s' = true)
  (hwide : (s.promote s').isInteger = true)
include hl hs hs' hwide

omit h hzero in
theorem exists_sum_of_wide (hx : x.dtype = t) (hy : y.dtype = t) :
    ∃ z : Scalar, op x y = (z.cast l.ret).cast t ∧ z.dtype.isFloat = false ∧
      z.toInt ≡ x.toInt + y.toInt [ZMOD (2 ^ t.width : Nat)] := by
  obtain ⟨z, hz, hsame⟩ := Loop.adapter_call_modEq hsum hl ht hs hs' hwide hx hy t
  exact ⟨z, Except.ok.inj ((hcall x y hx hy).symm.trans hz), hsame⟩

theorem width_le_ret (hret : l.ret.isInteger = true) : t.width ≤ l.ret.width := by
  by_contra hlt
  -- The least power of two that the return type loses would be lost when zero is added to it.
  have hle : l.ret.width ≤ t.width := by omega
  have hzero' := Scalar.toInt_ofInt_modEq ht 0
  have hpower := Scalar.toInt_ofInt_modEq ht (2 ^ l.ret.width : Nat)
  obtain ⟨z, hz, hzfloat, hmod⟩ := exists_sum_of_wide ht hsum hcall hl hs hs' hwide
    (Scalar.dtype_ofInt 0 t) (Scalar.dtype_ofInt (2 ^ l.ret.width : Nat) t)
  have hsum' : z.toInt ≡ 0 [ZMOD (2 ^ l.ret.width : Nat)] := by
    refine (modEq_of_width_le hle (hmod.trans (hzero'.add hpower))).trans ?_
    rw [Int.zero_add]
    exact Int.modEq_zero_iff_dvd.2 (Int.dvd_refl _)
  have hlost : z.cast l.ret = .ofInt 0 l.ret := by
    rw [← Scalar.ofInt_toInt_of_dtype hret (Scalar.dtype_cast z l.ret)]
    exact Scalar.ofInt_congr hret ((Scalar.toInt_cast_modEq hzfloat hret).trans hsum')
  have hneutral := h.neutral (.ofInt (2 ^ l.ret.width : Nat) t) (Scalar.dtype_ofInt _ t)
  rw [Scalar.cast_of_isZero ht hzero, hz, hlost,
    Scalar.cast_of_isZero ht (Scalar.isZero_ofInt hret)] at hneutral
  rw [← hneutral] at hpower
  have hdvd := Int.modEq_zero_iff_dvd.1 (hpower.symm.trans hzero')
  exact hlt ((Nat.pow_dvd_pow_iff_le_right (by decide)).1 (Int.natCast_dvd_natCast.1 hdvd))

theorem eq_plus_of_wide (hret : l.ret.isInteger = true) (hx : x.dtype = t) (hy : y.dtype = t) :
    op x y = Scalar.plus t x y := by
  have hwidth := h.width_le_ret hzero ht hsum hcall hl hs hs' hwide hret
  obtain ⟨z, hz, hzfloat, hmod⟩ := exists_sum_of_wide ht hsum hcall hl hs hs' hwide hx hy
  have hdtype : (op x y).dtype = t := by rw [hz, Scalar.dtype_cast]
  unfold Scalar.plus
  rw [← Scalar.ofInt_toInt_of_dtype ht hdtype, hz]
  refine Scalar.ofInt_congr ht ?_
  have hfloat : (z.cast l.ret).dtype.isFloat = false := by
    rw [Scalar.dtype_cast]
    exact DType.isFloat_of_isInteger hret
  have hlast := Scalar.toInt_cast_modEq hfloat ht
  have hfirst := modEq_of_width_le hwidth (Scalar.toInt_cast_modEq hzfloat hret)
  exact hlast.trans (hfirst.trans hmod)

end

end CommutesOn

theorem CommutesOn.plus (hu : Compiled u) (hin : u.nin = 2) (he : u.identity = some e)
    (hsum : u.definition.IsSum) (hzero : e.IsZero) (ht : t.isInteger = true)
    (hadds : u.AddsIntegers t) (h : u.CommutesOn e t op) : u.CommutesOn e t (Scalar.plus t) := by
  obtain ⟨l, hserving, hcall⟩ := h.exists_serving hu.coherent hin he
  obtain ⟨v, hserves⟩ := hserving.serves
  obtain ⟨options, ret, hl⟩ := compile_of_serves hu hserves
  have hop : ∀ x y, x.dtype = t → y.dtype = t → op x y = Scalar.plus t x y := by
    intro x y hx hy
    cases hserves with
    | compiled _ hcompiles =>
      rw [hcompiles.args_eq] at hl
      exact h.eq_plus_of_own hzero ht hsum hcall hl hx hy
    | found hfind =>
      rcases hadds l hfind with hown | ⟨s, s', hargs, hwide, hret⟩
      · rw [hown] at hl
        exact h.eq_plus_of_own hzero ht hsum hcall hl hx hy
      · have htakes := hu.coherent.takes hfind
        unfold Loop.Takes at htakes
        rw [hargs] at hl htakes
        obtain ⟨hs, hs'⟩ : t.castsSafely s = true ∧ t.castsSafely s' = true := by
          simpa using htakes
        exact h.eq_plus_of_wide hzero ht hsum hcall hl hs hs' hwide hret hx hy
  have hplus := Scalar.commutativeOn_plus ht
  refine ⟨fun x y hx hy => ?_, hplus.assoc, hplus.comm, ?_⟩
  · rw [h.step x y hx hy, hop x y hx hy]
  · rw [Scalar.cast_of_isZero ht hzero]
    exact hplus.neutral

theorem commutesOn_plus (hu : Compiled u) (hsum : u.definition.IsSum) (hzero : e.IsZero)
    (ht : t.isInteger = true)
    (hown : (u.table.get? [t, t]).isSome = true ∨
      u.frozen = false ∧ (u.options.nativeOnly && u.options.boxedOnly) = false)
    (hret : ∀ l, u.table.get? [t, t] = some l → l.ret = t) : u.CommutesOn e t (Scalar.plus t) := by
  have hin : u.nin = 2 := by
    obtain ⟨p, q, -, hparams, -⟩ := hsum
    show u.definition.params.length = 2
    rw [hparams]
    rfl
  have hplus := Scalar.commutativeOn_plus ht
  have hstart : e.cast t = .ofInt 0 t := Scalar.cast_of_isZero ht hzero
  have hserved : ∃ l v, Serves u [t, t] l v ∧ l.args = [t, t] ∧ l.ret = t := by
    cases hget : u.table.get? [t, t] with
    | some l => exact ⟨l, u, .found (find?_of_get? hget), (hu.coherent.loop hget).1, hret l hget⟩
    | none =>
      rw [hget] at hown
      obtain ⟨hfrozen, hoptions⟩ : u.frozen = false ∧
          (u.options.nativeOnly && u.options.boxedOnly) = false := by simpa using hown
      have hcompile : ∃ l, Loop.compile u.definition u.hosts u.options [t, t] none = .ok l ∧
          l.ret = t :=
        Loop.compile_sum hsum (DType.ne_bool_of_isInteger ht) hoptions
      obtain ⟨l, hl, hlret⟩ := hcompile
      have hfind : u.find? [t, t] = none := (find?_of_not_frozen hfrozen _).trans hget
      have hcompiles : u.Compiles [t, t] none l := ⟨hfrozen, hin.symm, hget, hl⟩
      exact ⟨l, u.withLoop l, .compiled hfind hcompiles, hcompiles.args_eq, hlret⟩
  obtain ⟨l, v, hserves, hlargs, hlret⟩ := hserved
  obtain ⟨options, ret, hl⟩ := compile_of_serves hu hserves
  rw [hlargs] at hl
  refine ⟨fun x y hx hy => ?_, hplus.assoc, hplus.comm, hstart ▸ hplus.neutral⟩
  have htypes : [x.dtype, y.dtype] = [t, t] := by rw [hx, hy]
  have hself := Scalar.cast_of_dtype (hplus.dtype_op x y hx hy)
  rw [stepOf, callOn_of_serves hu.coherent hin (htypes.symm ▸ hserves), htypes,
    ← Adapter.call_eq_map, Loop.adapter_call_plus hsum ht hl hx hy, hlret, hself, hself]

/--
If the steps of a reduction are an associative and commutative operation with the identity as the
neutral element, a reduction along all axes is the fold of all elements in any order, and one along
several axes holds the total of each fibre, as do reductions along one axis after the other. For a
function that adds integers this is their sum but for a multiple of the number of integers of the
type. All this holds for a sum on the types for which it has a loop that returns the type, and on
those for which it can compile one.
-/
theorem reduce_eq_totals (hu : Reachable u) (hin : u.nin = 2) (he : u.identity = some e)
    (hrank : a.rank ≠ 0) :
    (∀ op, u.CommutesOn e a.dtype op →
      (∀ elements : List Scalar, elements.Perm a.toScalars →
        answer (reduce a ⟨.all, none, none⟩) u =
          .ok (.scalar (elements.foldl op (e.cast a.dtype)))) ∧
      ∀ axes : List Nat, axes ≠ [] → axes.Nodup → (∀ k ∈ axes, k < a.rank) →
        ∃ result, answer (reduce a ⟨.several (axes.map Int.ofNat), none, none⟩) u = .ok result ∧
          FibreTotals op (e.cast a.dtype) a axes result ∧
          ∀ order, order.Perm axes → ∃ result',
            answer (reduceOneByOne none (.array a) order) u = .ok result' ∧ result.Alike result') ∧
    (u.definition.IsSum → e.IsZero → a.dtype.isInteger = true →
      (u.AddsIntegers a.dtype → (∃ op, u.CommutesOn e a.dtype op) → ∃ x,
        answer (reduce a ⟨.all, none, none⟩) u = .ok (.scalar x) ∧ x.dtype = a.dtype ∧
          x.toInt ≡ (a.toScalars.map Scalar.toInt).sum [ZMOD (2 ^ a.dtype.width : Nat)]) ∧
      ((u.table.get? [a.dtype, a.dtype]).isSome = true ∨
          u.frozen = false ∧ (u.options.nativeOnly && u.options.boxedOnly) = false →
        (∀ l, u.table.get? [a.dtype, a.dtype] = some l → l.ret = a.dtype) →
          u.AddsIntegers a.dtype ∧ u.CommutesOn e a.dtype (Scalar.plus a.dtype))) := by
  have hcompiled := hu.compiled
  refine ⟨fun op h => ⟨fun elements => h.reduce_all hcompiled.coherent hin he hrank,
    fun axes => h.reduce_several hcompiled.coherent hin he⟩,
    fun hsum hzero ht => ⟨?total, ?commutes⟩⟩
  case total =>
    rintro hadds ⟨op, h⟩
    have hplus := h.plus hcompiled hin he hsum hzero ht hadds
    have hall := hplus.reduce_all hcompiled.coherent hin he hrank (List.Perm.refl _)
    rw [Scalar.cast_of_isZero ht hzero, Scalar.foldl_plus ht, Int.zero_add] at hall
    exact ⟨_, hall, Scalar.dtype_ofInt _ _, Scalar.toInt_ofInt_modEq ht _⟩
  case commutes =>
    intro hown hret
    exact ⟨addsIntegers_of_own hcompiled.coherent (hown.symm.imp And.left id),
      commutesOn_plus hcompiled hsum hzero ht hown hret⟩

end Ufunc

/-! ## The sum of a cube -/

def Definition.sum : Definition :=
  ⟨"f", ["a", "b"], [.arith .add (.var "a") (.var "b")], "f(a, b) = a + b"⟩

theorem Definition.parse_sum : parse "f(a, b) = a + b" = .ok .sum := by decide +kernel

theorem Definition.isSum_sum : Definition.sum.IsSum := ⟨"a", "b", by decide, rfl, rfl⟩

namespace Ufunc

def sum : Ufunc := new .sum .empty (some (.int64 0)) .default

theorem reachable_sum : Reachable sum := .new _ _ _ Definition.parse_sum

theorem reduce_eq_totals_cube :
    Reachable sum ∧ sum.nin = 2 ∧ sum.identity = some (.int64 0) ∧ NDArray.cube.rank ≠ 0 ∧
      sum.CommutesOn (.int64 0) .int16 (Scalar.plus .int16) ∧
      (∃ x, answer (reduce .cube ⟨.all, none, none⟩) sum = .ok (.scalar x) ∧ x.dtype = .int16 ∧
        x.toInt ≡ 36 [ZMOD 65536]) ∧
      ∃ result, answer (reduce .cube ⟨.several [2, 0], none, none⟩) sum = .ok result ∧
        result.isScalar = false ∧ result.shape = [2] ∧
        ∀ order, order.Perm [2, 0] → ∃ result',
          answer (reduceOneByOne none (.array .cube) order) sum = .ok result' ∧
            result.Alike result' := by
  have hrank : NDArray.cube.rank ≠ 0 := by decide
  obtain ⟨htotals, hsum⟩ := reduce_eq_totals (a := .cube) reachable_sum rfl rfl hrank
  obtain ⟨hwrapped, hcommutes⟩ := hsum Definition.isSum_sum (by decide) rfl
  obtain ⟨hown, hplus⟩ := hcommutes (.inr ⟨rfl, rfl⟩) nofun
  obtain ⟨-, hseveral⟩ := htotals _ hplus
  obtain ⟨result, hresult, hfibres, horders⟩ := hseveral [2, 0] (by decide) (by decide) (by decide)
  have htotal : (NDArray.cube.toScalars.map Scalar.toInt).sum = 36 := by decide +kernel
  have hall := hwrapped hown ⟨_, hplus⟩
  rw [htotal] at hall
  exact ⟨reachable_sum, rfl, rfl, hrank, hplus, hall, result, hresult, hfibres.isScalar,
    hfibres.shape, horders⟩

end Ufunc

/-! ## A sum of bytes that does not wrap -/

def NDArray.twoBytes : NDArray := ⟨.uint8, [2], [1], #[200, 100]⟩

theorem NDArray.reachable_twoBytes : twoBytes.Reachable := by
  have hofScalars : ofScalars .uint8 [2] [.ofInt 200 .uint8, .ofInt 100 .uint8] = .ok twoBytes := by
    decide
  exact .ofScalars hofScalars

namespace Ufunc

/-- The sum of doubles and no other. -/
def sumOfDoubles : Ufunc := sum.afterAll [.add "dd->d", .freeze]

theorem reachable_sumOfDoubles : Reachable sumOfDoubles :=
  keeps_afterAll (fun r _ => .of_after fun _ hu => hu.perform r) reachable_sum

theorem definition_sumOfDoubles : sumOfDoubles.definition = .sum := by decide +kernel

theorem nin_sumOfDoubles : sumOfDoubles.nin = 2 := by
  unfold nin
  rw [definition_sumOfDoubles]
  rfl

theorem serves_sumOfDoubles : ∃ l options ret,
    Serves sumOfDoubles [.uint8, .uint8] l sumOfDoubles ∧ l.ret = .float64 ∧
      Loop.compile sumOfDoubles.definition sumOfDoubles.hosts options [.float64, .float64] ret =
        .ok l := by
  have hfind : (sumOfDoubles.find? [.uint8, .uint8]).map (fun l => (l.args, l.ret)) =
      some ([.float64, .float64], .float64) := by
    decide +kernel
  obtain ⟨l, hl, htypes⟩ := Option.map_eq_some_iff.1 hfind
  obtain ⟨hargs, hret⟩ := Prod.mk.inj htypes
  have hget : sumOfDoubles.table.get? l.args = some l :=
    (reachable_sumOfDoubles.coherent.find? hl).1
  rw [hargs] at hget
  obtain ⟨options, ret, hcompile⟩ := reachable_sumOfDoubles.compiled.loop hget
  exact ⟨l, options, ret, .found hl, hret, hcompile⟩

theorem commutesOn_sumOfDoubles : sumOfDoubles.CommutesOn (.int64 0) .uint8 Scalar.saturate where
  step x y hx hy := by
    obtain ⟨l, options, ret, hserves, hret, hcompile⟩ := serves_sumOfDoubles
    obtain ⟨z, hz, hsaturate⟩ := Scalar.add_bytes hx hy
    have hsum : sumOfDoubles.definition.IsSum := definition_sumOfDoubles ▸ Definition.isSum_sum
    have htypes : [x.dtype, y.dtype] = [.uint8, .uint8] := by rw [hx, hy]
    have hself : (Scalar.float64 z).cast .float64 = .float64 z := Scalar.cast_self _
    have hz' : ((x.cast .float64).cast .float64).binary .add ((y.cast .float64).cast .float64) =
        .ok (.float64 z) := by
      rw [Scalar.cast_cast, Scalar.cast_cast, hz]
    rw [stepOf, callOn_of_serves reachable_sumOfDoubles.coherent nin_sumOfDoubles
      (htypes.symm ▸ hserves), ← Adapter.call_eq_map,
      Loop.adapter_call_sum hsum rfl (by decide) hcompile hz', hret, hself, hsaturate]
  assoc x y z hx hy hz := by
    have hxr := Scalar.byte_range hx
    have hzr := Scalar.byte_range hz
    have hxy := Scalar.toInt_saturate hx hy
    have hyz := Scalar.toInt_saturate hy hz
    unfold Scalar.saturate at hxy hyz ⊢
    rw [hxy, hyz]
    congr 1
    omega
  comm x y _ _ := by
    unfold Scalar.saturate
    rw [Int.add_comm]
  neutral x hx := by
    have hxr := Scalar.byte_range hx
    have hzero : ((Scalar.int64 0).cast .uint8).toInt = 0 := by decide
    unfold Scalar.saturate
    rw [hzero, Int.zero_add, min_eq_right hxr.2]
    exact Scalar.ofInt_toInt_of_dtype rfl hx

/-- Where bytes are added as doubles, all premises hold, but the total is kept within the range of a
byte rather than wrapped. No axis at all is refused. -/
theorem sumOfDoubles_twoBytes :
    Reachable sumOfDoubles ∧ sumOfDoubles.nin = 2 ∧ sumOfDoubles.nout = 1 ∧
      sumOfDoubles.definition.IsSum ∧ sumOfDoubles.identity = some (.int64 0) ∧
      sumOfDoubles.CommutesOn (.int64 0) .uint8 Scalar.saturate ∧
      NDArray.twoBytes.Reachable ∧ NDArray.twoBytes.dtype = .uint8 ∧ NDArray.twoBytes.rank = 1 ∧
      answer (reduce .twoBytes ⟨.all, none, none⟩) sumOfDoubles =
        .ok (.scalar (.ofInt 255 .uint8)) ∧
      ¬(Scalar.ofInt 255 .uint8).toInt ≡
        (NDArray.twoBytes.toScalars.map Scalar.toInt).sum [ZMOD (2 ^ DType.uint8.width : Nat)] ∧
      answer (reduce .twoBytes ⟨.several [], none, none⟩) sumOfDoubles =
        .error (.invalidAxis .noAxes) := by
  have hcoherent := reachable_sumOfDoubles.coherent
  have hnout : sumOfDoubles.nout = 1 := by
    unfold nout
    rw [definition_sumOfDoubles]
    rfl
  have hidentity : sumOfDoubles.identity = some (.int64 0) := by decide +kernel
  have htotal : NDArray.twoBytes.toScalars.foldl Scalar.saturate ((Scalar.int64 0).cast .uint8) =
      .ofInt 255 .uint8 := by
    decide +kernel
  have hall := commutesOn_sumOfDoubles.reduce_all (a := .twoBytes) hcoherent nin_sumOfDoubles
    hidentity (by decide) (List.Perm.refl _)
  refine ⟨reachable_sumOfDoubles, nin_sumOfDoubles, hnout,
    definition_sumOfDoubles ▸ Definition.isSum_sum, hidentity, commutesOn_sumOfDoubles,
    NDArray.reachable_twoBytes, rfl, rfl, hall.trans ?_, by decide +kernel, by decide +kernel⟩
  exact congrArg (Except.ok ∘ Reduced.scalar) htotal

end Ufunc

end Pointwise

import Pointwise.Loop.Adapter
import Pointwise.Proofs.Loop.Modes
import Pointwise.Proofs.Reduction.Fibres
import Pointwise.Proofs.Scalar.Integers

/-!
# Sums of integers

Integers are added and wrapped. As wrapping can be put off to the end, a fold of sums is the sum of
all elements, wrapped once. The definition of a sum has loops that add elements of one type.
-/

namespace Pointwise

namespace Scalar

variable {t : DType} {x y : Scalar} {l : List Scalar}

/-! ## Wrapped sums -/

theorem toInt_cast_cast_modEq {s u : DType} (ht : t.isInteger = true)
    (hs : t.castsSafely s = true) (hu : s.castsSafely u = true) (hwide : u.isInteger = true)
    (hx : x.dtype = t) :
    t.width ≤ u.width ∧ ((x.cast s).cast u).toInt ≡ x.toInt [ZMOD (2 ^ t.width : Nat)] := by
  obtain ⟨hfloat, hle, -⟩ := DType.of_castsSafely hu (DType.isFloat_of_isInteger hwide)
  obtain ⟨-, hle', hint⟩ := DType.of_castsSafely hs hfloat
  have hxfloat : x.dtype.isFloat = false := by
    rw [hx]
    exact DType.isFloat_of_isInteger ht
  have hsecond := toInt_cast_modEq (s := x.cast s) (t := u) (by rwa [dtype_cast]) hwide
  have hfirst := toInt_cast_modEq hxfloat (hint ht)
  exact ⟨hle'.trans hle,
    (modEq_of_width_le (hle'.trans hle) hsecond).trans (modEq_of_width_le hle' hfirst)⟩

theorem isZero_ofInt (ht : t.isInteger = true) : (ofInt 0 t).IsZero := by
  cases t with
  | bool | float32 | float64 => cases ht
  | int8 | int16 | int32 | int64 | uint8 | uint16 | uint32 | uint64 => decide

/-- The sum of two integers, wrapped. -/
def plus (t : DType) (x y : Scalar) : Scalar := ofInt (x.toInt + y.toInt) t

theorem plus_ofInt (ht : t.isInteger = true) (n : Int) (x : Scalar) :
    plus t (ofInt n t) x = ofInt (n + x.toInt) t :=
  ofInt_congr ht ((toInt_ofInt_modEq ht n).add_right _)

theorem commutativeOn_plus (ht : t.isInteger = true) : CommutativeOn t (plus t) (ofInt 0 t) where
  dtype_start := dtype_ofInt 0 t
  dtype_op x y _ _ := dtype_ofInt _ t
  assoc x y z _ _ _ := by
    have hright : plus t x (plus t y z) = plus t (plus t y z) x := by
      unfold plus
      rw [Int.add_comm]
    rw [hright]
    unfold plus
    rw [← plus, plus_ofInt ht, ← plus, plus_ofInt ht]
    congr 1
    omega
  comm x y _ _ := by
    unfold plus
    rw [Int.add_comm]
  neutral x hx := by
    rw [plus_ofInt ht, Int.zero_add, ofInt_toInt_of_dtype ht hx]

theorem foldl_plus (ht : t.isInteger = true) (l : List Scalar) (n : Int) :
    l.foldl (plus t) (ofInt n t) = ofInt (n + (l.map toInt).sum) t := by
  induction l generalizing n with
  | nil => simp
  | cons x l ih =>
    rw [List.foldl_cons, plus_ofInt ht, ih, List.map_cons, List.sum_cons, Int.add_assoc]

theorem cast_of_isZero (ht : t.isInteger = true) (hx : x.IsZero) : x.cast t = ofInt 0 t := by
  unfold IsZero at hx
  split at hx
  next hfloat =>
    obtain ⟨negative, hvalue⟩ := hx
    rw [← ofInt_toInt_of_dtype ht (dtype_cast x t), toInt_cast_of_float hfloat ht, hvalue]
    cases t with
    | bool | float32 | float64 => cases ht
    | int8 | int16 | int32 | int64 | uint8 | uint16 | uint32 | uint64 => cases negative <;> rfl
  next hfloat =>
    by_cases hxt : x.dtype = t
    · rw [← hx, ofInt_toInt_of_dtype ht hxt, cast_of_dtype hxt]
    · rw [cast_of_not_float hxt (by simpa using hfloat), hx]

theorem binary_add (ht : t.isInteger = true) (hx : x.dtype = t) (hy : y.dtype = t) :
    x.binary .add y = .ok (plus t x y) :=
  binary_eq_ofInt (by decide) ht hx hy

end Scalar

/-! ## Loops of a sum -/

/-- A definition of the sum of its two parameters. -/
def Definition.IsSum (d : Definition) : Prop :=
  ∃ p q, p ≠ q ∧ d.params = [p, q] ∧ d.outputs = [.arith .add (.var p) (.var q)]

theorem Definition.body_of_outputs {d : Definition} {e : Expr} (h : d.outputs = [e]) :
    d.body = .ok e := by
  unfold body
  rw [h]

namespace Scope

variable {Γ : Scope} {p q : String} {t : DType} {x y z : Scalar}

section

variable (hpq : p ≠ q) (hparams : Γ.params = [p, q])
include hparams

theorem index?_first : Γ.index? p = some 0 := by simp [index?, hparams, List.findIdx?_cons]

include hpq

theorem index?_second : Γ.index? q = some 1 := by
  simp [index?, hparams, List.findIdx?_cons, hpq]

variable {s s' : DType} (hargs : Γ.args = [s, s']) (ht : s.promote s' = t) (hbool : t ≠ .bool)
include hargs ht hbool

theorem infer_sum : Γ.infer (.arith .add (.var p) (.var q)) = .ok (.concrete t) := by
  have hp : Γ.paramType? p = some s := by simp [paramType?, index?_first hparams, hargs]
  have hq : Γ.paramType? q = some s' := by simp [paramType?, index?_second hpq hparams, hargs]
  have hresult : Ty.result .add (.concrete s) (.concrete s') = .concrete t := by
    have hcombine : Ty.combine (.concrete s) (.concrete s') = .concrete t := congrArg Ty.concrete ht
    show Ty.arith (.concrete s) (.concrete s') = _
    unfold Ty.arith
    rw [hcombine]
    cases t with
    | bool => exact absurd rfl hbool
    | _ => rfl
  exact infer_arith.2 ⟨_, _, infer_var.2 ⟨s, hp, rfl⟩, infer_var.2 ⟨s', hq, rfl⟩, hresult.symm⟩

theorem evalAs_sum (hz : (x.cast t).binary .add (y.cast t) = .ok z) (ret : DType) :
    Γ.evalAs [x, y] (.arith .add (.var p) (.var q)) ret = .ok (z.cast ret) := by
  have hsum := infer_sum hpq hparams hargs ht hbool
  obtain ⟨_, _, hp, hq, -⟩ := infer_arith.1 hsum
  have hx : Γ.eval [x, y] (.var p) = .ok x := eval_var hp (index?_first hparams) rfl
  have hy : Γ.eval [x, y] (.var q) = .ok y := eval_var hq (index?_second hpq hparams) rfl
  have hfirst := asType_of_eval hp hx t
  have hsecond := asType_of_eval hq hy t
  exact asType_of_eval hsum ((eval_arith hsum hfirst hsecond).trans hz) ret

end

end Scope

namespace Loop

variable {d : Definition} {hosts : HostTable} {options : Options} {ret : Option DType}
  {s s' t : DType} {l : Loop} {x y z : Scalar}

/-- A loop of a sum adds its arguments in the type that both are promoted to, whether it is machine
code or not. -/
theorem invoke_sum (hd : d.IsSum) (ht : s.promote s' = t) (hbool : t ≠ .bool)
    (hl : compile d hosts options [s, s'] ret = .ok l) (hx : x.dtype = s) (hy : y.dtype = s')
    (hz : (x.cast t).binary .add (y.cast t) = .ok z) : l.invoke [x, y] = .ok (z.cast l.ret) := by
  obtain ⟨p, q, hpq, hparams, houtputs⟩ := hd
  obtain ⟨body, u, hcheck, hargs, -, hentry⟩ := compile_eq_ok hl
  obtain ⟨-, hbody, hinfer⟩ := Definition.check_eq_ok.1 hcheck
  obtain rfl : .arith .add (.var p) (.var q) = body :=
    Except.ok.inj ((Definition.body_of_outputs houtputs).symm.trans hbody)
  have htypes : [x, y].map Scalar.dtype = [s, s'] := by simp [hx, hy]
  have htypes' : [x, y].map Scalar.dtype = l.args := htypes.trans hargs.symm
  have hsum := Scope.evalAs_sum (Γ := d.scope hosts [s, s']) hpq hparams rfl ht hbool hz l.ret
  rcases hentry with hboxed | ⟨code, hcode, hnative⟩
  · rw [invoke_boxed hboxed htypes', BoxedKernel.call_eq hbody htypes, hsum, map_ok,
      Scalar.cast_cast]
  · have hext : (d.scope hosts [s, s']).NoFloatExtremum (.arith .add (.var p) (.var q)) := by
      intro op a b u hn hop
      simp only [Expr.nodes, List.cons_append, List.nil_append, List.mem_cons, List.not_mem_nil,
        reduceCtorEq, or_false, Expr.arith.injEq] at hn
      obtain ⟨rfl, -, -⟩ := hn
      rcases hop with hop | hop <;> cases hop
    obtain ⟨v, -, hpush, heval⟩ := Scope.delivers_lowerAs htypes hinfer hcode
    cases (heval hext).symm.trans hsum
    have hresult := result_toWord (z.cast l.ret) []
    rw [Scalar.dtype_cast] at hresult
    rw [invoke_native hnative htypes', hpush, hresult]

theorem compile_sum (hd : d.IsSum) (hbool : t ≠ .bool)
    (hoptions : (options.nativeOnly && options.boxedOnly) = false) :
    ∃ l, compile d hosts options [t, t] none = .ok l ∧ l.ret = t := by
  obtain ⟨p, q, hpq, hparams, houtputs⟩ := hd
  have hinfer := Scope.infer_sum (Γ := d.scope hosts [t, t]) hpq hparams rfl t.promote_self hbool
  have hbody := Definition.body_of_outputs houtputs
  have hcheck : d.check hosts [t, t] = .ok (.arith .add (.var p) (.var q), .concrete t) :=
    Definition.check_eq_ok.2 ⟨by simp [Definition.nin, hparams], hbody, hinfer⟩
  have hboxed : (d.scope hosts [t, t]).usesBoxed (.arith .add (.var p) (.var q)) = false := rfl
  obtain ⟨code, hcode⟩ := Scope.codeAs_eq_ok t hinfer <|
    Scope.lower_eq_ok hinfer hboxed fun name args g hn => by simp [Expr.nodes] at hn
  obtain ⟨nativeOnly, boxedOnly⟩ := options
  cases boxedOnly with
  | true =>
    obtain rfl : nativeOnly = false := by simpa using hoptions
    exact ⟨_, compile_boxed hcheck, rfl⟩
  | false =>
    refine ⟨⟨[t, t], t, .native code, d.name ++ "_<id>", d.hostCalls⟩, ?_, rfl⟩
    simp [compile, hcheck, hboxed, Ty.dtype, Scope.lowerAs, hcode]

/-! ## Adapters of a sum -/

theorem adapter_call_sum (hd : d.IsSum) (ht : s.promote s' = t) (hbool : t ≠ .bool)
    (hl : compile d hosts options [s, s'] ret = .ok l)
    (hz : ((x.cast s).cast t).binary .add ((y.cast s').cast t) = .ok z) (outer : DType) :
    Adapter.call ⟨[x.dtype, y.dtype], outer, l⟩ [x, y] = .ok ((z.cast l.ret).cast outer) := by
  obtain ⟨_, _, -, hargs, -⟩ := compile_eq_ok hl
  have hconvert : Adapter.convert ⟨[x.dtype, y.dtype], outer, l⟩ [x, y] =
      [x.cast s, y.cast s'] := by
    simp [Adapter.convert, hargs]
  unfold Adapter.call
  rw [hconvert]
  dsimp only
  rw [invoke_sum hd ht hbool hl (Scalar.dtype_cast x s) (Scalar.dtype_cast y s') hz]
  rfl

theorem adapter_call_plus (hd : d.IsSum) (ht : t.isInteger = true)
    (hl : compile d hosts options [t, t] ret = .ok l) (hx : x.dtype = t) (hy : y.dtype = t)
    (outer : DType) :
    Adapter.call ⟨[t, t], outer, l⟩ [x, y] =
      .ok (((Scalar.plus t x y).cast l.ret).cast outer) := by
  have hz : ((x.cast t).cast t).binary .add ((y.cast t).cast t) = .ok (Scalar.plus t x y) := by
    rw [Scalar.cast_of_dtype hx, Scalar.cast_of_dtype hx, Scalar.cast_of_dtype hy,
      Scalar.cast_of_dtype hy, Scalar.binary_add ht hx hy]
  have hcall := adapter_call_sum hd t.promote_self (DType.ne_bool_of_isInteger ht) hl hz outer
  rwa [hx, hy] at hcall

/-- A loop that adds in another type of integers gives the same sum but for a multiple of the number
of integers of the type. -/
theorem adapter_call_modEq (hd : d.IsSum) (hl : compile d hosts options [s, s'] ret = .ok l)
    (ht : t.isInteger = true) (hs : t.castsSafely s = true) (hs' : t.castsSafely s' = true)
    (hwide : (s.promote s').isInteger = true) (hx : x.dtype = t) (hy : y.dtype = t)
    (outer : DType) :
    ∃ z : Scalar, Adapter.call ⟨[t, t], outer, l⟩ [x, y] = .ok ((z.cast l.ret).cast outer) ∧
      z.dtype.isFloat = false ∧ z.toInt ≡ x.toInt + y.toInt [ZMOD (2 ^ t.width : Nat)] := by
  obtain ⟨hsafe, hsafe'⟩ := DType.castsSafely_promote s s'
  have hz := Scalar.binary_add hwide (Scalar.dtype_cast (x.cast s) (s.promote s'))
    (Scalar.dtype_cast (y.cast s') (s.promote s'))
  have hcall := adapter_call_sum hd rfl (DType.ne_bool_of_isInteger hwide) hl hz outer
  rw [hx, hy] at hcall
  refine ⟨_, hcall, ?_, ?_⟩
  · unfold Scalar.plus
    rw [Scalar.dtype_ofInt, DType.isFloat_of_isInteger hwide]
  · obtain ⟨hle, hxmod⟩ := Scalar.toInt_cast_cast_modEq ht hs hsafe hwide hx
    obtain ⟨-, hymod⟩ := Scalar.toInt_cast_cast_modEq ht hs' hsafe' hwide hy
    have hwrapped := Scalar.toInt_ofInt_modEq hwide
      (((x.cast s).cast (s.promote s')).toInt + ((y.cast s').cast (s.promote s')).toInt)
    exact (modEq_of_width_le hle hwrapped).trans (hxmod.add hymod)

end Loop

/-! ## Sums of bytes in double precision -/

namespace Scalar

open Binary

variable {x y : Scalar}

def saturate (x y : Scalar) : Scalar := ofInt (min 255 (x.toInt + y.toInt)) .uint8

theorem byte_range (hx : x.dtype = .uint8) : 0 ≤ x.toInt ∧ x.toInt ≤ 255 := by
  have hrange := toInt_range (s := x) (by rw [hx]; rfl)
  rwa [hx] at hrange

theorem toInt_saturate (hx : x.dtype = .uint8) (hy : y.dtype = .uint8) :
    (saturate x y).toInt = min 255 (x.toInt + y.toInt) := by
  have hxr := byte_range hx
  have hyr := byte_range hy
  refine toInt_ofInt rfl ?_ ?_
  · show 0 ≤ _
    omega
  · show _ ≤ 255
    omega

theorem binary_add_float64 (x y : BitVec 64) :
    (float64 x).binary .add (float64 y) = .ok (float64 (double.add x y)) := by
  have hself (z : BitVec 64) : (float64 z).cast .float64 = float64 z := cast_self _
  have hwide (z : BitVec 64) : ((float64 z).cast .float64).bitsAs .float64 = z :=
    (congrArg (bitsAs · .float64) (hself z)).trans (bitsAs_self _)
  have hsecond : (float64 y).bitsAs .float64 = y := bitsAs_self _
  show Except.ok (onFloat .add .float64 x ((float64 y).bitsAs .float64)) = _
  unfold onFloat
  rw [hsecond]
  exact congrArg Except.ok ((hself _).trans (congrArg₂ (fun x y => float64 (double.add x y))
    (hwide x) (hwide y)))

theorem cast_float64_of_byte (hx : x.dtype = .uint8) {n : Nat} (hn : x.toInt = n) :
    x.cast .float64 = float64 (double.pattern 64 (.finite false n)) := by
  rw [cast_of_not_float (by rw [hx]; decide) (by rw [hx]; rfl), hn, ← Value.ofRat_natCast]
  rfl

theorem add_bytes (hx : x.dtype = .uint8) (hy : y.dtype = .uint8) :
    ∃ z, (x.cast .float64).binary .add (y.cast .float64) = .ok (float64 z) ∧
      (float64 z).cast .uint8 = saturate x y := by
  obtain ⟨hx0, hx255⟩ := byte_range hx
  obtain ⟨hy0, hy255⟩ := byte_range hy
  obtain ⟨m, hm⟩ := Int.eq_ofNat_of_zero_le hx0
  obtain ⟨n, hn⟩ := Int.eq_ofNat_of_zero_le hy0
  rw [cast_float64_of_byte hx hm, cast_float64_of_byte hy hn, binary_add_float64]
  refine ⟨_, rfl, ?_⟩
  have hvalue : double.value (double.add (double.pattern 64 (.finite false m))
      (double.pattern 64 (.finite false n))) = .finite false (m + n : Nat) := by
    unfold Format.add
    rw [Format.value_pattern_natCast (by omega), Format.value_pattern_natCast (by omega),
      Value.add_natCast, Format.value_pattern_natCast (by omega)]
  have htoValue : (float64 (double.add (double.pattern 64 (.finite false m))
      (double.pattern 64 (.finite false n)))).toValue = .finite false (m + n : Nat) := hvalue
  rw [← ofInt_toInt_of_dtype rfl (dtype_cast _ .uint8), toInt_cast_of_float rfl rfl, htoValue]
  unfold saturate
  congr 1
  rw [hm, hn]
  show max 0 (min 255 ((m + n : Nat) : Int)) = _
  omega

end Scalar

end Pointwise

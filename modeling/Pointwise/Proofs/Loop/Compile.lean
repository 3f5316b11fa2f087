import Pointwise.Loop
import Pointwise.Proofs.Typing

/-!
# Compiled loops

What a compiled loop is made of, and what it does on values of its argument types.
-/

namespace Pointwise

theorem Scalar.zipWith_cast_self {values : List Scalar} {ts : List DType}
    (h : values.map Scalar.dtype = ts) : List.zipWith Scalar.cast values ts = values := by
  subst h
  induction values with
  | nil => rfl
  | cons v vs ih => simp [ih]

theorem BoxedKernel.call_eq {k : BoxedKernel} {values : List Scalar} {body : Expr}
    (hb : k.definition.body = .ok body) (h : values.map Scalar.dtype = k.args) :
    k.call values = (k.definition.scope k.hosts k.args).evalAs values body k.ret := by
  have hlen : values.length = k.args.length := by rw [← h, List.length_map]
  simp [call, hb, hlen, Scalar.zipWith_cast_self h]

namespace Loop

variable {d : Definition} {hosts : HostTable} {args : List DType} {ret : Option DType}
  {body : Expr} {t : Ty}

/-! ## Compilation -/

theorem compile_error {options : Options} {e : Error} (h : d.check hosts args = .error e)
    (hoptions : (options.nativeOnly && options.boxedOnly) = false) :
    compile d hosts options args ret = .error e := by
  simp [compile, hoptions, h]

theorem compile_native {code : Native.Code} (h : d.check hosts args = .ok (body, t))
    (hboxed : (d.scope hosts args).usesBoxed body = false)
    (hcode : (d.scope hosts args).lowerAs body (ret.getD t.dtype) = .ok code) :
    compile d hosts .default args ret =
      .ok ⟨args, ret.getD t.dtype, .native code, d.name ++ "_<id>", d.hostCalls⟩ := by
  simp [compile, Options.default, h, hboxed, hcode]

theorem compile_boxed (h : d.check hosts args = .ok (body, t)) :
    compile d hosts ⟨false, true⟩ args ret =
      .ok ⟨args, ret.getD t.dtype, .boxed ⟨d, hosts, args, ret.getD t.dtype⟩, d.name ++ "_<id>",
        d.hostCalls⟩ := by
  simp [compile, h]

theorem compile_usesBoxed (h : d.check hosts args = .ok (body, t))
    (hboxed : (d.scope hosts args).usesBoxed body = true) :
    compile d hosts .default args ret =
      .ok ⟨args, ret.getD t.dtype, .boxed ⟨d, hosts, args, ret.getD t.dtype⟩, d.name ++ "_<id>",
        d.hostCalls⟩ := by
  simp [compile, Options.default, h, hboxed]

theorem exists_of_compile {options : Options} {l : Loop}
    (h : compile d hosts options args ret = .ok l) :
    ∃ body t entry, d.check hosts args = .ok (body, t) ∧
      l = ⟨args, ret.getD t.dtype, entry, d.name ++ "_<id>", d.hostCalls⟩ ∧
      (entry = .boxed ⟨d, hosts, args, ret.getD t.dtype⟩ ∨
        ∃ code, (d.scope hosts args).lowerAs body (ret.getD t.dtype) = .ok code ∧
          entry = .native code) := by
  simp only [compile, throw_eq_error, error_bind, pure_eq_ok] at h
  split at h
  · cases h
  obtain ⟨⟨body, t⟩, hcheck, h⟩ := bind_eq_ok.1 h
  dsimp only at h
  split at h
  · split at h
    · cases h
    · cases h
      exact ⟨body, t, _, hcheck, rfl, .inl rfl⟩
  · obtain ⟨code, hcode, h⟩ := bind_eq_ok.1 h
    cases h
    exact ⟨body, t, _, hcheck, rfl, .inr ⟨code, hcode, rfl⟩⟩

theorem compile_eq_ok {options : Options} {l : Loop}
    (h : compile d hosts options args ret = .ok l) :
    ∃ body t, d.check hosts args = .ok (body, t) ∧ l.args = args ∧ l.ret = ret.getD t.dtype ∧
      (l.entry = .boxed ⟨d, hosts, args, l.ret⟩ ∨
        ∃ code, (d.scope hosts args).lowerAs body l.ret = .ok code ∧ l.entry = .native code) := by
  obtain ⟨body, t, entry, hcheck, rfl, hentry⟩ := exists_of_compile h
  exact ⟨body, t, hcheck, rfl, rfl, hentry⟩

/-! ## Invocation -/

theorem firstMismatch?_eq_none {values : List Scalar} {ts : List DType}
    (h : values.map Scalar.dtype = ts) : firstMismatch? values ts = none := by
  subst h
  induction values with
  | nil => rfl
  | cons v vs ih => simp [firstMismatch?, ih]

variable {l : Loop} {values : List Scalar}

theorem invoke_native {code : Native.Code} (he : l.entry = .native code)
    (h : values.map Scalar.dtype = l.args) :
    l.invoke values = .ok (result l.ret (Native.run (values.map slot) [] code)) := by
  have hlen : values.length = l.args.length := by rw [← h, List.length_map]
  simp [invoke, hlen, firstMismatch?_eq_none h, he]

theorem invoke_boxed {k : BoxedKernel} (he : l.entry = .boxed k)
    (h : values.map Scalar.dtype = l.args) :
    l.invoke values = (k.call values).map (·.cast l.ret) := by
  have hlen : values.length = l.args.length := by rw [← h, List.length_map]
  cases hk : k.call values <;> simp [invoke, hlen, firstMismatch?_eq_none h, he, hk]

theorem dtype_invoke {v : Scalar} (h : l.invoke values = .ok v) : v.dtype = l.ret := by
  simp only [invoke, throw_eq_error, error_bind, pure_eq_ok] at h
  split at h
  · cases h
  split at h
  · cases h
  split at h
  · cases h
    exact Scalar.dtype_ofBytes ..
  · obtain ⟨w, -, h⟩ := bind_eq_ok.1 h
    cases h
    exact Scalar.dtype_cast ..

end Loop

end Pointwise

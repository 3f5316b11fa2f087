import Pointwise.Host.Stock
import Pointwise.Proofs.Loop.Compile
import Pointwise.Proofs.Native.Agreement

/-!
# Native and boxed loops agree

A definition without boxed calls is compiled to machine code and to a boxed kernel alike, and both
loops return the same elements.
-/

namespace Pointwise

section

variable {d : Definition} {hosts : HostTable} {body : Expr}

/-- Every call in an expression is one of a native function, with arguments that can be counted. -/
def Expr.CallsNative (e : Expr) (hosts : HostTable) : Prop :=
  ∀ name args, .call name args ∈ e.nodes →
    args.length ≤ 255 ∧ ∃ f, hosts.get? name (UInt8.ofNat args.length) = some (.native f)

namespace Expr.CallsNative

theorem fits (h : body.CallsNative hosts) : body.CallsFit := fun name args hn => (h name args hn).1

theorem usesBoxed {Γ : Scope} (h : body.CallsNative Γ.hosts) : Γ.usesBoxed body = false := by
  refine Scope.usesBoxed_eq_false.2 fun n hn => ?_
  cases n with
  | call name args =>
    obtain ⟨-, f, hf⟩ := h name args hn
    simp [Scope.callsBoxed, hf]
  | _ => rfl

end Expr.CallsNative

namespace Loop

variable {args : List DType} {ret : DType} {values : List Scalar} {t : Ty} {code : Native.Code}

theorem result_eq_call (h : d.check hosts args = .ok (body, t))
    (hext : (d.scope hosts args).NoFloatExtremum body)
    (hcode : (d.scope hosts args).lowerAs body ret = .ok code)
    (hv : values.map Scalar.dtype = args) :
    ∃ v, v.dtype = ret ∧ BoxedKernel.call ⟨d, hosts, args, ret⟩ values = .ok v ∧
      result ret (Native.run (values.map slot) [] code) = v := by
  obtain ⟨-, hb, ht⟩ := Definition.check_eq_ok.1 h
  obtain ⟨v, rfl, hpush, heval⟩ := Scope.delivers_lowerAs hv ht hcode
  exact ⟨v, rfl, (BoxedKernel.call_eq hb hv).trans (heval hext), by rw [hpush, result_toWord]⟩

/--
If all calls are native, the default mode and the boxed mode compile to loops of the same return
type, or fail with the same error. The loops return the same element for all arguments, unless the
body has an extremum of floating-point numbers.
-/
theorem modes_agree (registered : hosts.Registered) (hbody : d.body = .ok body)
    (hcalls : body.CallsNative hosts) (args : List DType) (ret : Option DType) :
    (∃ e, compile d hosts .default args ret = .error e ∧
      compile d hosts ⟨false, true⟩ args ret = .error e) ∨
    ∃ l m, compile d hosts .default args ret = .ok l ∧
      compile d hosts ⟨false, true⟩ args ret = .ok m ∧
      l.isBoxed = false ∧ m.isBoxed = true ∧ l.ret = m.ret ∧
      ((d.scope hosts args).NoFloatExtremum body → ∀ values, values.map Scalar.dtype = args →
        ∃ s, l.invoke values = .ok s ∧ m.invoke values = .ok s) := by
  cases h : d.check hosts args with
  | error e => exact .inl ⟨e, compile_error h rfl, compile_error h rfl⟩
  | ok checked =>
    obtain ⟨body', t⟩ := checked
    obtain ⟨-, hb, ht⟩ := Definition.check_eq_ok.1 h
    cases hb.symm.trans hbody
    obtain ⟨code, hcode⟩ := Scope.lowerAs_eq_ok registered (ret.getD t.dtype) ht
      (Expr.CallsNative.usesBoxed (Γ := d.scope hosts args) hcalls) hcalls.fits
    refine .inr ⟨_, _, compile_native h (Expr.CallsNative.usesBoxed hcalls) hcode, compile_boxed h,
      rfl, rfl, rfl, fun hext values hv => ?_⟩
    obtain ⟨v, hvt, hcall, hresult⟩ := result_eq_call h hext hcode hv
    refine ⟨v, ?_, ?_⟩
    · rw [invoke_native rfl hv, hresult]
    · rw [invoke_boxed rfl hv, hcall, ← hvt]
      simp

end Loop

end

/-! ## A definition with a native call -/

def Expr.fusedSum : Expr :=
  .arith .add (.call "fma" [.var "a", .var "b", .float 0x3fe0000000000000])
    (.cond (.compare .lt (.var "a") (.int 3)) (.var "b") (.int 1))

def Definition.fusedSum : Definition :=
  ⟨"f", ["a", "b"], [.fusedSum], "f(a, b) = fma(a, b, 0.5) + if(a < 3, b, 1)"⟩

def HostTable.fusing : HostTable := ⟨[(("fma", 3), HostFn.mulAdd)]⟩

theorem HostTable.registered_fusing : HostTable.fusing.Registered :=
  .register .empty (show HostTable.empty.register "fma" HostFn.mulAdd = _ from rfl)

theorem Expr.callsNative_fusedSum : Expr.fusedSum.CallsNative .fusing := by
  intro name args hn
  simp only [fusedSum, nodes, nodesOfAll, List.cons_append, List.nil_append, List.append_nil,
    List.mem_cons, List.not_mem_nil, reduceCtorEq, false_or, or_false, call.injEq] at hn
  obtain ⟨rfl, rfl⟩ := hn
  exact ⟨by decide, _, rfl⟩

theorem Scope.noFloatExtremum_fusedSum (Γ : Scope) : Γ.NoFloatExtremum .fusedSum := by
  intro op a b t hn hop
  simp only [Expr.fusedSum, Expr.nodes, Expr.nodesOfAll, List.cons_append, List.nil_append,
    List.append_nil, List.mem_cons, List.not_mem_nil, reduceCtorEq, or_false,
    Expr.arith.injEq] at hn
  obtain ⟨rfl, -, -⟩ := hn
  rcases hop with hop | hop <;> cases hop

theorem Loop.modes_agree_fusedSum :
    HostTable.fusing.Registered ∧ Definition.fusedSum.body = .ok .fusedSum ∧
      Expr.fusedSum.CallsNative .fusing ∧
      ∃ l m, compile .fusedSum .fusing .default [.int8, .float32] none = .ok l ∧
        compile .fusedSum .fusing ⟨false, true⟩ [.int8, .float32] none = .ok m ∧ l.ret = m.ret ∧
        ∀ values, values.map Scalar.dtype = [.int8, .float32] →
          ∃ s, l.invoke values = .ok s ∧ m.invoke values = .ok s := by
  refine ⟨HostTable.registered_fusing, rfl, Expr.callsNative_fusedSum, ?_⟩
  rcases modes_agree HostTable.registered_fusing (d := .fusedSum) rfl Expr.callsNative_fusedSum
    [.int8, .float32] none with ⟨e, -, he⟩ | ⟨l, m, hl, hm, -, -, hret, h⟩
  · have hcheck : Definition.fusedSum.check .fusing [.int8, .float32] =
        .ok (.fusedSum, .concrete .float64) := rfl
    cases he.symm.trans (compile_boxed hcheck)
  · exact ⟨l, m, hl, hm, hret, h (Scope.noFloatExtremum_fusedSum _)⟩

end Pointwise

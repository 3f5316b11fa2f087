import Pointwise.Host.Stock
import Pointwise.Proofs.Boxed
import Pointwise.Proofs.Loop.Compile
import Pointwise.Proofs.Native.Lowering

/-!
# Type soundness

What the check of a definition promises of its kernels, boxed and native.
-/

namespace Pointwise

section

variable {d : Definition} {hosts : HostTable} {args : List DType} {body : Expr} {t : Ty}
  {values : List Scalar}

theorem BoxedKernel.call_ends (registered : hosts.Registered)
    (h : d.check hosts args = .ok (body, t)) (ret : DType)
    (hv : values.map Scalar.dtype = args) :
    Ends (BoxedKernel.call ⟨d, hosts, args, ret⟩ values) (·.dtype = ret)
      ((d.scope hosts args).Blames values body) := by
  obtain ⟨-, hb, ht⟩ := Definition.check_eq_ok.1 h
  rw [BoxedKernel.call_eq (k := ⟨d, hosts, args, ret⟩) hb hv]
  exact Scope.evalAs_ends registered hv ret ht

theorem Loop.invoke_ends (registered : hosts.Registered)
    (h : d.check hosts args = .ok (body, t)) {options : Options} {ret : Option DType} {l : Loop}
    (hl : Loop.compile d hosts options args ret = .ok l) (hv : values.map Scalar.dtype = args) :
    Ends (l.invoke values) (·.dtype = l.ret) ((d.scope hosts args).Blames values body) := by
  obtain ⟨b, s, hcheck, hargs, -, he⟩ := Loop.compile_eq_ok hl
  cases hcheck.symm.trans h
  rcases he with he | ⟨code, -, he⟩
  · rw [Loop.invoke_boxed he (hv.trans hargs.symm)]
    exact (BoxedKernel.call_ends registered h l.ret hv).map fun v _ => Scalar.dtype_cast v l.ret
  · rw [Loop.invoke_native he (hv.trans hargs.symm)]
    exact Ends.ok (Scalar.dtype_ofBytes _ _)

/--
Every node of a checked body has a type, and evaluates to an element of it unless a boxed host
function or an uncountable argument list is to blame. Kernels and loops keep to their return type in
the same way, and where neither of the two occurs every node is lowered to machine code.
-/
theorem Definition.check_sound (registered : hosts.Registered)
    (h : d.check hosts args = .ok (body, t)) :
    (∀ n ∈ body.nodes, ∃ s, (d.scope hosts args).infer n = .ok s ∧
      ∀ values, values.map Scalar.dtype = args →
        Ends ((d.scope hosts args).eval values n) (·.dtype = s.dtype)
          ((d.scope hosts args).Blames values n)) ∧
    (∀ ret values, values.map Scalar.dtype = args →
      Ends (BoxedKernel.call ⟨d, hosts, args, ret⟩ values) (·.dtype = ret)
        ((d.scope hosts args).Blames values body)) ∧
    (∀ options ret l, Loop.compile d hosts options args ret = .ok l →
      l.ret = ret.getD t.dtype ∧
        ∀ values, values.map Scalar.dtype = args →
          Ends (l.invoke values) (·.dtype = l.ret) ((d.scope hosts args).Blames values body)) ∧
    ((d.scope hosts args).usesBoxed body = false → body.CallsFit →
      ∀ n ∈ body.nodes, ∀ u, ∃ code, (d.scope hosts args).lowerAs n u = .ok code) := by
  obtain ⟨-, -, ht⟩ := check_eq_ok.1 h
  refine ⟨?node, fun ret values hv => BoxedKernel.call_ends registered h ret hv, ?loop, ?lower⟩
  case node =>
    intro n hn
    obtain ⟨s, hs⟩ := Scope.infer_node ht hn
    exact ⟨s, hs, fun values hv => Scope.eval_ends registered hv hs⟩
  case loop =>
    intro options ret l hl
    refine ⟨?_, fun values hv => Loop.invoke_ends registered h hl hv⟩
    obtain ⟨b, s, hcheck, -, hret, -⟩ := Loop.compile_eq_ok hl
    cases hcheck.symm.trans h
    exact hret
  case lower =>
    intro hboxed hfit n hn u
    obtain ⟨s, hs⟩ := Scope.infer_node ht hn
    exact Scope.lowerAs_eq_ok registered u hs (Scope.usesBoxed_node hboxed hn) (hfit.of_node hn)

end

/-! ## A definition with a boxed call -/

def Expr.guardedSum : Expr :=
  .arith .add (.call "guard" [.arith .mul (.var "a") (.var "b")]) (.arith .div (.int 2) (.var "a"))

def Definition.guardedSum : Definition :=
  ⟨"f", ["a", "b"], [.guardedSum], "f(a, b) = guard(a * b) + 2 / a"⟩

def HostTable.guarding : HostTable := ⟨[(("guard", 1), HostFn.nonNegative 1 .int32)]⟩

theorem HostTable.registered_guarding : HostTable.guarding.Registered :=
  .register .empty (show HostTable.empty.register "guard" (HostFn.nonNegative 1 .int32) = _ from rfl)

theorem Definition.check_sound_guardedSum :
    HostTable.guarding.Registered ∧
      guardedSum.check .guarding [.int32, .float32] = .ok (.guardedSum, .concrete .float64) ∧
      ∀ ret values, values.map Scalar.dtype = [.int32, .float32] →
        Ends (BoxedKernel.call ⟨guardedSum, .guarding, [.int32, .float32], ret⟩ values)
          (·.dtype = ret)
          ((guardedSum.scope .guarding [.int32, .float32]).Blames values .guardedSum) :=
  ⟨HostTable.registered_guarding, rfl, (check_sound HostTable.registered_guarding rfl).2.1⟩

end Pointwise

import Pointwise.Proofs.Evaluation
import Pointwise.Proofs.Host

/-!
# Soundness of boxed evaluation

A checked expression evaluates to an element of its type. What can still go wrong is a boxed host
function, or a call with more arguments than an arity can count.
-/

namespace Pointwise.Scope

variable {Γ : Scope} {values : List Scalar}

/-- What may be blamed for an error: an error of a boxed host function on the values of its
arguments, or a call with too many arguments. -/
def Blames (Γ : Scope) (values : List Scalar) (e : Expr) (err : Error) : Prop :=
  ∃ name args, .call name args ∈ e.nodes ∧
    (256 ≤ args.length ∨
      ∃ n ret f vs, Γ.hosts.get? name (UInt8.ofNat args.length) = some (.boxed n ret f) ∧
        Γ.evalAll values none args = .ok vs ∧ f vs = .error err)

theorem Blames.of_part {p e : Expr} {err : Error} (hp : p ∈ e.parts) (h : Γ.Blames values p err) :
    Γ.Blames values e err := by
  obtain ⟨name, args, hn, h⟩ := h
  exact ⟨name, args, Expr.mem_nodes_of_part hp hn, h⟩

/-- A call gives an element of the function's type, or may be blamed for its error. -/
theorem callHost_ends (hosts : Γ.hosts.Registered) {name : String} {args : List Expr} {f : HostFn}
    {vs : List Scalar} (hf : Γ.hosts.get? name (UInt8.ofNat args.length) = some f)
    (hvs : Γ.evalAll values f.argType? args = .ok vs) (hlen : vs.length = args.length) :
    Ends (callHost f vs) (·.dtype = f.ret) (Γ.Blames values (.call name args)) := by
  have hself := Expr.mem_nodes_self (.call name args)
  cases f with
  | native f =>
    by_cases hn : args.length ≤ 255
    · have harity : f.arity.toNat = (vs.map Scalar.toDouble).length := by
        rw [List.length_map, hlen, hosts.arity_toNat hn hf]
      obtain ⟨y, -, hy⟩ := f.call_eq_ok harity
      simp only [callHost, hy, ok_bind]
      exact Ends.ok rfl
    · have hbad (err : Error) : Γ.Blames values (.call name args) err :=
        ⟨name, args, hself, .inl (by omega)⟩
      have hcall : Ends (f.call (vs.map Scalar.toDouble)) (fun _ => True)
          (Γ.Blames values (.call name args)) := by
        cases f.call (vs.map Scalar.toDouble) with
        | ok y => exact Ends.ok trivial
        | error err => exact Ends.error (hbad err)
      exact hcall.bind fun _ _ => Ends.ok rfl
  | boxed n ret f =>
    have hcall : Ends (f vs) (fun _ => True) (Γ.Blames values (.call name args)) := by
      cases hr : f vs with
      | ok y => exact Ends.ok trivial
      | error err => exact Ends.error ⟨name, args, hself, .inr ⟨n, ret, f, vs, hf, hvs, hr⟩⟩
    exact hcall.bind fun y _ => Ends.ok (Scalar.dtype_cast y ret)

theorem eval_ends (hosts : Γ.hosts.Registered) (hv : values.map Scalar.dtype = Γ.args) {e : Expr}
    {t : Ty} (h : Γ.infer e = .ok t) :
    Ends (Γ.eval values e) (·.dtype = t.dtype) (Γ.Blames values e) := by
  induction e using Expr.induct_parts generalizing t with
  | step e ih =>
    have part (p : Expr) (hp : p ∈ e.parts) {s : Ty} (hs : Γ.infer p = .ok s) :
        Ends (Γ.eval values p) (·.dtype = s.dtype) (Γ.Blames values e) :=
      (ih p hp hs).mono (fun _ => id) fun _ => Blames.of_part hp
    have ht : Ends (Γ.typeOf e) (· = t) (Γ.Blames values e) := by
      rw [typeOf_eq_ok.2 h]
      exact Ends.ok rfl
    have typed (s : Ty) (v : Scalar) (hs : s = t) (hv : v.dtype = s.dtype) : v.dtype = t.dtype :=
      hs ▸ hv
    cases e with
    | int n | float p | bool b => exact literal_ends rfl ht typed
    | var x =>
      obtain ⟨u, hu, rfl⟩ := infer_var.1 h
      obtain ⟨i, v, hi, hiv, hvu⟩ := value_of_paramType? hv hu
      rw [eval_var h hi hiv]
      exact Ends.ok hvu
    | neg x =>
      obtain ⟨hx, hb⟩ := infer_neg.1 h
      refine neg_ends ht (part x (.head _) hx) fun s v hs hvs => ?_
      obtain rfl := hs
      obtain ⟨w, hw, hwt⟩ := Scalar.neg_eq_ok (hvs ▸ Ty.dtype_ne_bool hb)
      rw [hw]
      exact Ends.ok (hwt.trans hvs)
    | not x =>
      obtain ⟨⟨s, hx⟩, rfl⟩ := infer_not.1 h
      exact not_ends ht (part x (.head _) hx) fun _ => rfl
    | arith op a b =>
      obtain ⟨s, u, ha, hb, rfl⟩ := infer_arith.1 h
      refine arith_ends ht (part a (.head _) ha) (part b (.tail _ (.head _)) hb)
        fun r v w hr hvr hwr => ?_
      obtain rfl := hr
      obtain ⟨z, hz, hzt⟩ :=
        Scalar.binary_eq_ok (hvr.trans hwr.symm) (hvr ▸ Ty.allows_result op s u)
      rw [hz]
      exact Ends.ok (hzt.trans hvr)
    | compare c a b =>
      obtain ⟨s, u, ha, hb, rfl⟩ := infer_compare.1 h
      have hcommon : Ends (Γ.commonType a b) (fun _ => True)
          (Γ.Blames values (.compare c a b)) := by
        rw [commonType_eq ha hb]
        exact Ends.ok trivial
      refine compare_ends hcommon (part a (.head _) ha) (part b (.tail _ (.head _)) hb)
        (fun r v w hvr hwr => ?_) fun _ => rfl
      obtain ⟨p, hp⟩ := Scalar.compare_eq_ok c (hvr.trans hwr.symm)
      rw [hp]
      exact Ends.ok trivial
    | and a b =>
      obtain ⟨s, u, ha, hb, rfl⟩ := infer_and.1 h
      exact and_ends ht (part a (.head _) ha) (part b (.tail _ (.head _)) hb) fun _ => rfl
    | or a b =>
      obtain ⟨s, u, ha, hb, rfl⟩ := infer_or.1 h
      exact or_ends ht (part a (.head _) ha) (part b (.tail _ (.head _)) hb) fun _ => rfl
    | cond c a b =>
      obtain ⟨r, s, u, hc, ha, hb, -⟩ := infer_cond.1 h
      exact cond_ends ht (part c (.head _) hc) (part a (.tail _ (.head _)) ha)
        (part b (.tail _ (.tail _ (.head _))) hb) typed
    | call name args =>
      obtain ⟨hargs, f, hf, rfl⟩ := infer_call.1 h
      have hhost : Ends (Γ.host name args.length) (· = f) (Γ.Blames values (.call name args)) := by
        rw [host_eq_ok.2 hf]
        exact Ends.ok rfl
      -- The arguments have different types, so only their errors are followed through the list.
      have hall : ∀ a ∈ args,
          Ends (Γ.eval values a) (fun _ => True) (Γ.Blames values (.call name args)) := by
        intro a ha
        obtain ⟨s, hs⟩ := hargs a ha
        exact (part a ha hs).mono (fun _ _ => trivial) fun _ => id
      refine call_ends ht hhost hall fun g vs hg hvs hlength => ?_
      obtain rfl := hg
      exact callHost_ends hosts hf hvs hlength

theorem evalAs_ends (hosts : Γ.hosts.Registered) (hv : values.map Scalar.dtype = Γ.args) {e : Expr}
    {t : Ty} (u : DType) (h : Γ.infer e = .ok t) :
    Ends (Γ.evalAs values e u) (·.dtype = u) (Γ.Blames values e) :=
  asType_ends u (eval_ends hosts hv h)

end Pointwise.Scope

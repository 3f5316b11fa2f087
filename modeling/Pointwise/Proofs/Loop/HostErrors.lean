import Pointwise.Loop.Adapter
import Pointwise.Proofs.Evaluation
import Pointwise.Proofs.Loop.Compile

/-!
# Errors of host functions

A boxed host function may fail in any way, even for want of a loop if it calls another function.
Everything else that runs when a loop does fails in ways of its own.
-/

namespace Pointwise

/-- Whether an error says that no loop takes the types of a call. -/
def Error.isNoMatch : Error → Bool
  | noMatchingLoop .. => true
  | _ => false

/-- A boxed host function of the table fails with the error on some values. -/
def HostTable.Raises (hosts : HostTable) (e : Error) : Prop :=
  ∃ name n arity ret f values,
    hosts.get? name n = some (.boxed arity ret f) ∧ f values = .error e

/-- An error for want of a loop can only be that of a host function. -/
def HostTable.Explains (hosts : HostTable) (e : Error) : Prop := e.isNoMatch = true → hosts.Raises e

variable {hosts : HostTable} {values : List Scalar}

theorem HostTable.Explains.of_not {e : Error} (h : e.isNoMatch = false) : hosts.Explains e :=
  fun hmatch => absurd (h.symm.trans hmatch) Bool.false_ne_true

/-! ## Operations -/

/-- Whether an error may come from an operation, for want of a type or for want of a function. -/
def Error.ofOperation : Error → Bool
  | typing _ | internal _ | unknownFunction .. => true
  | _ => false

theorem Scalar.neg_fails (a : Scalar) : Ends a.neg (fun _ => True) (·.ofOperation = true) := by
  unfold neg
  split
  · exact Ends.error rfl
  all_goals exact Ends.ok trivial

theorem Scalar.binary_fails (op : ArithOp) (a b : Scalar) :
    Ends (a.binary op b) (fun _ => True) (·.ofOperation = true) := by
  unfold binary
  split
  case isFalse => exact Ends.error rfl
  case isTrue =>
    dsimp only
    split
    · cases op
      case max | min => exact Ends.ok trivial
      all_goals exact Ends.error rfl
    · exact Ends.ok trivial
    all_goals
      cases op
      case div => exact Ends.error rfl
      all_goals exact Ends.ok trivial

theorem Scalar.compare_fails (c : Binary.Comparison) (a b : Scalar) :
    Ends (a.compare c b) (fun _ => True) (·.ofOperation = true) := by
  unfold compare
  split
  · exact Ends.ok trivial
  · exact Ends.error rfl

namespace Scope

variable {Γ : Scope}

/-! ## Evaluation -/

/-- How an evaluation can fail: in an operation, for want of a parameter's value or in a host
function. -/
inductive Fails (Γ : Scope) (values : List Scalar) (e : Expr) : Error → Prop where
  | operation {err : Error} : err.ofOperation = true → Fails Γ values e err
  | missing {x : String} : .var x ∈ e.nodes → (Γ.index? x).bind (values[·]?) = none →
      Fails Γ values e (.unknownIdent x)
  | raised {err : Error} : Γ.hosts.Raises err → Fails Γ values e err

theorem Fails.of_part {p e : Expr} {err : Error} (hp : p ∈ e.parts) (h : Γ.Fails values p err) :
    Γ.Fails values e err := by
  cases h with
  | operation h => exact .operation h
  | missing hx hnone => exact .missing (Expr.mem_nodes_of_part hp hx) hnone
  | raised h => exact .raised h

theorem fails_of_operation {α : Type} {r : Except Error α} (e : Expr)
    (h : Ends r (fun _ => True) (·.ofOperation = true)) :
    Ends r (fun _ => True) (Γ.Fails values e) :=
  h.mono (fun _ => id) fun _ => .operation

theorem callHost_fails {e : Expr} {name : String} {n : UInt8} {f : HostFn}
    (hf : Γ.hosts.get? name n = some f) (args : List Scalar) :
    Ends (callHost f args) (fun _ => True) (Γ.Fails values e) := by
  cases f with
  | native f =>
    have hcall : Ends (f.call (args.map Scalar.toDouble)) (fun _ => True) (Γ.Fails values e) := by
      unfold NativeFn.call
      split
      · exact Ends.ok trivial
      · exact Ends.error (.operation rfl)
    exact hcall.bind fun _ _ => Ends.ok trivial
  | boxed arity ret f =>
    have hcall : Ends (f args) (fun _ => True) (Γ.Fails values e) := by
      cases hr : f args with
      | ok y => exact Ends.ok trivial
      | error e => exact Ends.error (.raised ⟨name, n, arity, ret, f, args, hf, hr⟩)
    exact hcall.bind fun _ _ => Ends.ok trivial

theorem eval_fails (e : Expr) : Ends (Γ.eval values e) (fun _ => True) (Γ.Fails values e) := by
  induction e using Expr.induct_parts with
  | step e ih =>
    have part (p : Expr) (hp : p ∈ e.parts) :
        Ends (Γ.eval values p) (fun _ => True) (Γ.Fails values e) :=
      (ih p hp).mono (fun _ => id) fun _ => Fails.of_part hp
    have untyped (err : Error) (herr : err = .internal .untypedNode) : Γ.Fails values e err :=
      .operation (by rw [herr]; rfl)
    have ht : Ends (Γ.typeOf e) (fun _ => True) (Γ.Fails values e) :=
      (typeOf_ends e).mono (fun _ => id) untyped
    cases e with
    | int n | float p | bool b => exact literal_ends rfl ht fun _ _ _ _ => trivial
    | var x => exact var_ends ht (fun _ _ => trivial) (.missing (Expr.mem_nodes_self _))
    | neg x =>
      exact neg_ends ht (part x (.head _)) fun _ v _ _ => fails_of_operation _ v.neg_fails
    | not x => exact not_ends ht (part x (.head _)) fun _ => trivial
    | arith op a b =>
      exact arith_ends ht (part a (.head _)) (part b (.tail _ (.head _)))
        fun _ v w _ _ _ => fails_of_operation _ (v.binary_fails op w)
    | compare c a b =>
      exact compare_ends ((commonType_ends a b).mono (fun _ => id) untyped) (part a (.head _))
        (part b (.tail _ (.head _))) (fun _ v w _ _ => fails_of_operation _ (v.compare_fails c w))
        fun _ => trivial
    | and a b =>
      exact and_ends ht (part a (.head _)) (part b (.tail _ (.head _))) fun _ => trivial
    | or a b =>
      exact or_ends ht (part a (.head _)) (part b (.tail _ (.head _))) fun _ => trivial
    | cond c a b =>
      exact cond_ends ht (part c (.head _)) (part a (.tail _ (.head _)))
        (part b (.tail _ (.tail _ (.head _)))) fun _ _ _ _ => trivial
    | call name args =>
      have hhost : Ends (Γ.host name args.length)
          (Γ.hosts.get? name (UInt8.ofNat args.length) = some ·)
          (Γ.Fails values (.call name args)) :=
        (host_ends name args.length).mono (fun _ => id) fun err herr =>
          .operation (by rw [herr]; rfl)
      exact call_ends ht hhost part fun f vs hf _ _ => callHost_fails hf vs

theorem Fails.explained {e : Expr} {err : Error} (h : Γ.Fails values e err) :
    Γ.hosts.Explains err := by
  cases h with
  | operation h => exact .of_not (by cases err <;> first | rfl | cases h)
  | missing => exact .of_not rfl
  | raised h => exact fun _ => h

end Scope

/-! ## Loops -/

theorem BoxedKernel.call_explained (k : BoxedKernel) (values : List Scalar) :
    Ends (k.call values) (fun _ => True) k.hosts.Explains := by
  unfold call
  split
  · exact Ends.error (.of_not rfl)
  unfold Definition.body
  split
  · exact (Scope.asType_ends k.ret (Scope.eval_fails _)).mono (fun _ _ => trivial)
      fun _ h => h.explained
  · exact Ends.error (.of_not rfl)

/-- The loop runs machine code, or calls host functions of the table. -/
def Loop.Calls (l : Loop) (hosts : HostTable) : Prop := ∀ k, l.entry = .boxed k → k.hosts = hosts

theorem Loop.calls_of_compile {d : Definition} {options : Options} {args : List DType}
    {ret : Option DType} {l : Loop} (h : compile d hosts options args ret = .ok l) :
    l.Calls hosts := by
  intro k hk
  obtain ⟨body, t, -, -, -, hentry | ⟨code, -, hentry⟩⟩ := compile_eq_ok h
  · cases hentry.symm.trans hk
    rfl
  · cases hentry.symm.trans hk

theorem Loop.invoke_explained {l : Loop} (hl : l.Calls hosts) (values : List Scalar) :
    Ends (l.invoke values) (fun _ => True) hosts.Explains := by
  simp only [invoke, throw_eq_error, error_bind, pure_eq_ok]
  split
  · exact Ends.error (.of_not rfl)
  split
  · exact Ends.error (.of_not rfl)
  split
  · exact Ends.ok trivial
  next k hk =>
    rw [← hl k hk]
    exact (k.call_explained values).bind fun _ _ => Ends.ok trivial

theorem Adapter.call_explained {a : Adapter} (hl : a.loop.Calls hosts) (values : List Scalar) :
    Ends (a.call values) (fun _ => True) hosts.Explains := by
  unfold call
  split
  · exact Ends.error (.of_not rfl)
  · exact (Loop.invoke_explained hl _).bind fun _ _ => Ends.ok trivial

end Pointwise

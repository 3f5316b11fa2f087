import Pointwise.Native.Lowering
import Pointwise.Proofs.Host
import Pointwise.Proofs.Loop.Variables
import Pointwise.Proofs.Typing

/-!
# Lowering

What each kind of expression is lowered to, and what keeps an expression from being lowered. Nothing
does if it is checked, calls no boxed host function and has no more arguments in a call than an
arity can count. Where an expression is lowered, so is all that it contains.
-/

namespace Pointwise

/-- Every call has as many arguments as an arity can count. -/
def Expr.CallsFit (e : Expr) : Prop :=
  ∀ name args, .call name args ∈ e.nodes → args.length ≤ 255

theorem Expr.CallsFit.of_node {e n : Expr} (h : e.CallsFit) (hn : n ∈ e.nodes) : n.CallsFit :=
  fun name args hcall => h name args (mem_nodes_trans hcall hn)

theorem Native.arithInstr_eq_ok {op : ArithOp} {t : DType} (name : String) (h : op.Allows t) :
    ∃ i, arithInstr name op t = .ok i := by
  cases op with
  | add | sub | mul | max | min => cases hk : t.kind <;> simp [arithInstr, hk]
  | div =>
    have hk : t.kind = .float := by simpa [ArithOp.Allows, DType.isFloat] using h
    simp [arithInstr, hk]

namespace Scope

open Native

variable {Γ : Scope} {e : Expr} {k : Code}

theorem usesBoxed_eq_false {e : Expr} :
    Γ.usesBoxed e = false ↔ ∀ n ∈ e.nodes, Γ.callsBoxed n = false := by
  simp [usesBoxed]

theorem usesBoxed_node {e n : Expr} (h : Γ.usesBoxed e = false) (hn : n ∈ e.nodes) :
    Γ.usesBoxed n = false :=
  usesBoxed_eq_false.2 fun m hm => usesBoxed_eq_false.1 h m (Expr.mem_nodes_trans hm hn)

theorem native_of_callsBoxed {name : String} {args : List Expr} {f : HostFn}
    (h : Γ.callsBoxed (.call name args) = false)
    (hf : Γ.hosts.get? name (UInt8.ofNat args.length) = some f) : ∃ g, f = .native g := by
  cases f with
  | native g => exact ⟨g, rfl⟩
  | boxed n ret g => simp [callsBoxed, hf] at h

theorem linked_eq_ok {name : String} {n : Nat} {f : HostFn} {g : NativeFn} :
    linked name n f = .ok g ↔ f = .native g ∧ g.arity.toNat = n := by
  cases f with
  | native f =>
    rw [linked]
    split
    next harity => simp +contextual [← harity]
    next harity =>
      refine ⟨nofun, ?_⟩
      rintro ⟨⟨⟩, h⟩
      exact absurd h harity
  | boxed n ret f => simp [linked]

/-! ## Code in another type -/

theorem codeAs_iff {u : DType} {code : Except Error Code} :
    Γ.codeAs e u code = .ok k ↔
      (∃ s, e.literal? = some s ∧ k = [.const (s.cast u).toWord]) ∨
        e.literal? = none ∧
          ∃ t l, Γ.infer e = .ok t ∧ code = .ok l ∧ k = l ++ castCode t.dtype u := by
  unfold codeAs
  cases e.literal? with
  | some s => simp [eq_comm]
  | none => simp [bind_eq_ok, typeOf_eq_ok, eq_comm (b := k)]

theorem codeAs_eq_ok {t : Ty} {code : Except Error Code} (u : DType) (h : Γ.infer e = .ok t)
    (hcode : ∃ k, code = .ok k) : ∃ k, Γ.codeAs e u code = .ok k := by
  obtain ⟨l, hl⟩ := hcode
  cases hliteral : e.literal? with
  | some s => exact ⟨_, codeAs_iff.2 (.inl ⟨s, hliteral, rfl⟩)⟩
  | none => exact ⟨_, codeAs_iff.2 (.inr ⟨hliteral, t, l, h, hl, rfl⟩)⟩

/-! ## What is lowered -/

theorem lower_of_literal? {s : Scalar} (hs : e.literal? = some s) :
    Γ.lower e = .ok [.const s.toWord] := by
  cases e with
  | int n | float p | bool b =>
    cases hs
    rw [lower]
    exact congrArg (fun v : Scalar => Except.ok [Instr.const v.toWord]) (Scalar.cast_self _)
  | _ => cases hs

theorem lower_var {x : String} :
    Γ.lower (.var x) = .ok k ↔
      ∃ t i, Γ.infer (.var x) = .ok t ∧ Γ.index? x = some i ∧ k = [.load i t.dtype.lane] := by
  simp only [lower, bind_eq_ok, typeOf_eq_ok]
  cases Γ.index? x <;> simp [eq_comm]

theorem lower_neg {x : Expr} :
    Γ.lower (.neg x) = .ok k ↔
      ∃ t i l, Γ.infer (.neg x) = .ok t ∧ negInstr t.dtype = .ok i ∧
        Γ.codeAs x t.dtype (Γ.lower x) = .ok l ∧ k = l ++ [i] := by
  simp only [lower, bind_eq_ok, typeOf_eq_ok, Except.ok.injEq, eq_comm (b := k), ← exists_and_left]

theorem lower_not {x : Expr} :
    Γ.lower (.not x) = .ok k ↔
      ∃ t l, Γ.infer (.not x) = .ok t ∧ Γ.codeAs x .bool (Γ.lower x) = .ok l ∧
        k = l ++ [.unary .flip] := by
  simp only [lower, bind_eq_ok, typeOf_eq_ok, Except.ok.injEq, eq_comm (b := k), ← exists_and_left]

theorem lower_arith {op : ArithOp} {a b : Expr} :
    Γ.lower (.arith op a b) = .ok k ↔
      ∃ t l m i, Γ.infer (.arith op a b) = .ok t ∧ Γ.codeAs a t.dtype (Γ.lower a) = .ok l ∧
        Γ.codeAs b t.dtype (Γ.lower b) = .ok m ∧ arithInstr Γ.name op t.dtype = .ok i ∧
        k = l ++ m ++ [i] := by
  simp only [lower, bind_eq_ok, typeOf_eq_ok, Except.ok.injEq, eq_comm (b := k), ← exists_and_left]

theorem lower_compare {c : Binary.Comparison} {a b : Expr} :
    Γ.lower (.compare c a b) = .ok k ↔
      ∃ t l m, Γ.commonType a b = .ok t ∧ Γ.codeAs a t (Γ.lower a) = .ok l ∧
        Γ.codeAs b t (Γ.lower b) = .ok m ∧ k = l ++ m ++ [compareInstr c t] := by
  simp only [lower, bind_eq_ok, Except.ok.injEq, eq_comm (b := k), ← exists_and_left]

theorem lower_and {a b : Expr} :
    Γ.lower (.and a b) = .ok k ↔
      ∃ t l m, Γ.infer (.and a b) = .ok t ∧ Γ.codeAs a .bool (Γ.lower a) = .ok l ∧
        Γ.codeAs b .bool (Γ.lower b) = .ok m ∧ k = l ++ [.branch m [.const 0]] := by
  simp only [lower, bind_eq_ok, typeOf_eq_ok, Except.ok.injEq, eq_comm (b := k), ← exists_and_left]

theorem lower_or {a b : Expr} :
    Γ.lower (.or a b) = .ok k ↔
      ∃ t l m, Γ.infer (.or a b) = .ok t ∧ Γ.codeAs a .bool (Γ.lower a) = .ok l ∧
        Γ.codeAs b .bool (Γ.lower b) = .ok m ∧ k = l ++ [.branch [.const 1] m] := by
  simp only [lower, bind_eq_ok, typeOf_eq_ok, Except.ok.injEq, eq_comm (b := k), ← exists_and_left]

theorem lower_cond {c a b : Expr} :
    Γ.lower (.cond c a b) = .ok k ↔
      ∃ t l m n, Γ.infer (.cond c a b) = .ok t ∧ Γ.codeAs c .bool (Γ.lower c) = .ok l ∧
        Γ.codeAs a t.dtype (Γ.lower a) = .ok m ∧ Γ.codeAs b t.dtype (Γ.lower b) = .ok n ∧
        k = l ++ [.branch m n] := by
  simp only [lower, bind_eq_ok, typeOf_eq_ok, Except.ok.injEq, eq_comm (b := k), ← exists_and_left]

theorem lower_call {name : String} {args : List Expr} :
    Γ.lower (.call name args) = .ok k ↔
      ∃ t g l, Γ.infer (.call name args) = .ok t ∧
        Γ.hosts.get? name (UInt8.ofNat args.length) = some (.native g) ∧
        g.arity.toNat = args.length ∧ Γ.lowerAll args = .ok l ∧ k = l ++ [.call g] := by
  simp only [lower, bind_eq_ok, typeOf_eq_ok, host_eq_ok, linked_eq_ok, Except.ok.injEq,
    eq_comm (b := k)]
  constructor
  · rintro ⟨t, ht, _, hf, g, ⟨rfl, harity⟩, l, hl, hk⟩
    exact ⟨t, g, l, ht, hf, harity, hl, hk⟩
  · rintro ⟨t, g, l, ht, hf, harity, hl, hk⟩
    exact ⟨t, ht, _, hf, g, ⟨rfl, harity⟩, l, hl, hk⟩

theorem lowerAll_cons {e : Expr} {es : List Expr} :
    Γ.lowerAll (e :: es) = .ok k ↔
      ∃ l m, Γ.codeAs e .float64 (Γ.lower e) = .ok l ∧ Γ.lowerAll es = .ok m ∧ k = l ++ m := by
  simp only [lowerAll, bind_eq_ok, Except.ok.injEq, eq_comm (b := k), ← exists_and_left]

/-! ## What is not lowered -/

/-- What keeps an expression from being lowered, its parts apart. -/
inductive Refuses (Γ : Scope) : Expr → Error → Prop where
  | untyped {e : Expr} (h : ∀ t, Γ.infer e ≠ .ok t) : Refuses Γ e (.internal .untypedNode)
  | unknown {x : String} (h : Γ.index? x = none) : Refuses Γ (.var x) (.unknownIdent x)
  | negation {x : Expr} {t : Ty} (ht : Γ.infer (.neg x) = .ok t) (h : t.dtype = .bool) :
    Refuses Γ (.neg x) (.typing .negatedBool)
  | division {a b : Expr} {t : Ty} (ht : Γ.infer (.arith .div a b) = .ok t)
      (h : t.dtype.isFloat = false) :
    Refuses Γ (.arith .div a b) (.lowering (.integerDivision Γ.name))
  | missing {name : String} {args : List Expr}
      (h : Γ.hosts.get? name (UInt8.ofNat args.length) = none) :
    Refuses Γ (.call name args) (.unknownFunction name (UInt8.ofNat args.length))
  | boxed {name : String} {args : List Expr} {f : HostFn}
      (hf : Γ.hosts.get? name (UInt8.ofNat args.length) = some f) (h : ∀ g, f ≠ .native g) :
    Refuses Γ (.call name args) (.lowering (.boxedHost name (UInt8.ofNat args.length)))
  | arity {name : String} {args : List Expr} {g : NativeFn}
      (hf : Γ.hosts.get? name (UInt8.ofNat args.length) = some (.native g))
      (h : g.arity.toNat ≠ args.length) :
    Refuses Γ (.call name args) (.lowering .invalidCode)

/-- An expression that is not lowered has a node that is to blame. -/
def Refused (Γ : Scope) (e : Expr) (err : Error) : Prop := ∃ n ∈ e.nodes, Γ.Refuses n err

theorem Refuses.refused {err : Error} (h : Γ.Refuses e err) : Γ.Refused e err :=
  ⟨e, Expr.mem_nodes_self e, h⟩

theorem Refused.of_part {p : Expr} {err : Error} (hp : p ∈ e.parts) (h : Γ.Refused p err) :
    Γ.Refused e err := by
  obtain ⟨n, hn, h⟩ := h
  exact ⟨n, Expr.mem_nodes_of_part hp hn, h⟩

theorem typeOf_refused (e : Expr) :
    Ends (Γ.typeOf e) (Γ.infer e = .ok ·) (Γ.Refused e) := by
  unfold typeOf
  split
  next t ht => exact .ok ht
  next err herr => exact .error (Refuses.untyped fun t ht => by cases herr.symm.trans ht).refused

theorem commonType_refused {a b : Expr} (ha : a ∈ e.parts) (hb : b ∈ e.parts) :
    Ends (Γ.commonType a b) (fun _ => True) (Γ.Refused e) :=
  ((typeOf_refused a).mono (fun _ => id) fun _ => .of_part ha).bind fun _ _ =>
    ((typeOf_refused b).mono (fun _ => id) fun _ => .of_part hb).bind fun _ _ => .ok trivial

theorem negInstr_refused {x : Expr} {t : Ty} (ht : Γ.infer (.neg x) = .ok t) :
    Ends (negInstr t.dtype) (fun _ => True) (Γ.Refused (.neg x)) := by
  unfold negInstr
  split
  next hk => exact .error (Refuses.negation ht (DType.kind_eq_bool.1 hk)).refused
  all_goals exact .ok trivial

theorem arithInstr_refused {op : ArithOp} {a b : Expr} {t : Ty}
    (ht : Γ.infer (.arith op a b) = .ok t) :
    Ends (arithInstr Γ.name op t.dtype) (fun _ => True) (Γ.Refused (.arith op a b)) := by
  unfold arithInstr
  split
  case h_10 hk =>
    exact .error (Refuses.division ht (by simpa [DType.isFloat] using hk)).refused
  all_goals exact .ok trivial

theorem host_refused (name : String) (args : List Expr) :
    Ends (Γ.host name args.length) (Γ.hosts.get? name (UInt8.ofNat args.length) = some ·)
      (Γ.Refused (.call name args)) := by
  unfold host
  split
  next f hf => exact .ok hf
  next hnone => exact .error (Refuses.missing hnone).refused

theorem linked_refused {name : String} {args : List Expr} {f : HostFn}
    (hf : Γ.hosts.get? name (UInt8.ofNat args.length) = some f) :
    Ends (linked name args.length f) (fun _ => True) (Γ.Refused (.call name args)) := by
  unfold linked
  split
  · split
    · exact .ok trivial
    next harity => exact .error (Refuses.arity hf harity).refused
  · exact .error (Refuses.boxed hf nofun).refused

theorem codeAs_refused {code : Except Error Code} (u : DType)
    (h : Ends code (fun _ => True) (Γ.Refused e)) :
    Ends (Γ.codeAs e u code) (fun _ => True) (Γ.Refused e) := by
  unfold codeAs
  split
  · exact .ok trivial
  · exact (typeOf_refused e).bind fun _ _ => h.bind fun _ _ => .ok trivial

theorem lowerAll_refused {es : List Expr}
    (h : ∀ p ∈ es, Ends (Γ.codeAs p .float64 (Γ.lower p)) (fun _ => True) (Γ.Refused e)) :
    Ends (Γ.lowerAll es) (fun _ => True) (Γ.Refused e) := by
  induction es with
  | nil => exact .ok trivial
  | cons p es ih =>
    rw [List.forall_mem_cons] at h
    rw [lowerAll]
    exact h.1.bind fun _ _ => (ih h.2).bind fun _ _ => .ok trivial

theorem lower_refused (e : Expr) : Ends (Γ.lower e) (fun _ => True) (Γ.Refused e) := by
  induction e using Expr.induct_parts with
  | step e ih =>
    have as (u : DType) (p : Expr) (hp : p ∈ e.parts) :
        Ends (Γ.codeAs p u (Γ.lower p)) (fun _ => True) (Γ.Refused e) :=
      (codeAs_refused u (ih p hp)).mono (fun _ => id) fun _ => .of_part hp
    cases e with
    | int | float | bool => exact (typeOf_refused _).bind fun _ _ => .ok trivial
    | var x =>
      rw [lower]
      refine (typeOf_refused _).bind fun t _ => ?_
      cases hx : Γ.index? x with
      | none => exact .error (Refuses.unknown hx).refused
      | some i => exact .ok trivial
    | neg x =>
      rw [lower]
      exact (typeOf_refused _).bind fun t ht => (negInstr_refused ht).bind fun _ _ =>
        (as t.dtype x (.head _)).bind fun _ _ => .ok trivial
    | not x =>
      rw [lower]
      exact (typeOf_refused _).bind fun _ _ => (as .bool x (.head _)).bind fun _ _ => .ok trivial
    | arith op a b =>
      rw [lower]
      exact (typeOf_refused _).bind fun t ht => (as t.dtype a (.head _)).bind fun _ _ =>
        (as t.dtype b (.tail _ (.head _))).bind fun _ _ =>
          (arithInstr_refused ht).bind fun _ _ => .ok trivial
    | compare c a b =>
      rw [lower]
      exact (commonType_refused (.head _) (.tail _ (.head _))).bind fun t _ =>
        (as t a (.head _)).bind fun _ _ =>
          (as t b (.tail _ (.head _))).bind fun _ _ => .ok trivial
    | and a b | or a b =>
      rw [lower]
      exact (typeOf_refused _).bind fun _ _ => (as .bool a (.head _)).bind fun _ _ =>
        (as .bool b (.tail _ (.head _))).bind fun _ _ => .ok trivial
    | cond c a b =>
      rw [lower]
      exact (typeOf_refused _).bind fun t _ => (as .bool c (.head _)).bind fun _ _ =>
        (as t.dtype a (.tail _ (.head _))).bind fun _ _ =>
          (as t.dtype b (.tail _ (.tail _ (.head _)))).bind fun _ _ => .ok trivial
    | call name args =>
      rw [lower]
      refine (typeOf_refused _).bind fun _ _ => Ends.bind (host_refused name args) fun f hf => ?_
      exact (linked_refused hf).bind fun _ _ =>
        (lowerAll_refused (as .float64)).bind fun _ _ => .ok trivial

theorem lowerAs_refused (e : Expr) (u : DType) :
    Ends (Γ.lowerAs e u) (fun _ => True) (Γ.Refused e) :=
  codeAs_refused u (lower_refused e)

/-! ## Lowering succeeds -/

theorem lower_eq_ok {t : Ty} (h : Γ.infer e = .ok t) (hboxed : Γ.usesBoxed e = false)
    (hlinked : ∀ name args g, .call name args ∈ e.nodes →
      Γ.hosts.get? name (UInt8.ofNat args.length) = some (.native g) →
        g.arity.toNat = args.length) : ∃ k, Γ.lower e = .ok k := by
  cases hk : Γ.lower e with
  | ok k => exact ⟨k, rfl⟩
  | error err =>
    -- Whatever node were to blame has a type, and native functions of their arity to call.
    obtain ⟨n, hn, hrefuses⟩ := (lower_refused e).of_error hk
    obtain ⟨s, hs⟩ := infer_node h hn
    cases hrefuses with
    | untyped hnone => exact absurd hs (hnone s)
    | unknown hx =>
      obtain ⟨u, hu, -⟩ := infer_var.1 hs
      rw [paramType?, hx] at hu
      cases hu
    | negation ht hbool => exact absurd hbool (Ty.dtype_ne_bool (infer_neg.1 ht).2)
    | division ht hfloat =>
      obtain ⟨s, u, -, -, rfl⟩ := infer_arith.1 ht
      rw [Ty.result, Ty.isFloat_quotient] at hfloat
      cases hfloat
    | missing hnone =>
      obtain ⟨-, f, hf, -⟩ := infer_call.1 hs
      cases hnone.symm.trans hf
    | boxed hf hnative =>
      obtain ⟨g, rfl⟩ := native_of_callsBoxed (usesBoxed_eq_false.1 hboxed _ hn) hf
      exact absurd rfl (hnative g)
    | arity hf harity => exact absurd (hlinked _ _ _ hn hf) harity

theorem lowerAs_eq_ok (hosts : Γ.hosts.Registered) {t : Ty} (u : DType) (h : Γ.infer e = .ok t)
    (hboxed : Γ.usesBoxed e = false) (hfit : e.CallsFit) : ∃ k, Γ.lowerAs e u = .ok k :=
  codeAs_eq_ok u h <| lower_eq_ok h hboxed fun _ _ _ hn hf => hosts.arity_toNat (hfit _ _ hn) hf

/-! ## Parts of what is lowered -/

theorem lower_of_codeAs {u : DType} (h : Γ.codeAs e u (Γ.lower e) = .ok k) :
    ∃ l, Γ.lower e = .ok l := by
  rcases codeAs_iff.1 h with ⟨s, hs, -⟩ | ⟨-, t, l, -, hl, -⟩
  · exact ⟨_, lower_of_literal? hs⟩
  · exact ⟨l, hl⟩

theorem lower_of_lowerAll {es : List Expr} (h : Γ.lowerAll es = .ok k) (he : e ∈ es) :
    ∃ l, Γ.lower e = .ok l := by
  induction es generalizing k with
  | nil => cases he
  | cons a es ih =>
    obtain ⟨l, m, hl, hm, -⟩ := lowerAll_cons.1 h
    rcases List.mem_cons.1 he with rfl | he
    · exact lower_of_codeAs hl
    · exact ih hm he

theorem lower_mem_pair {a b p : Expr} {l m : Code} {u v : DType}
    (ha : Γ.codeAs a u (Γ.lower a) = .ok l) (hb : Γ.codeAs b v (Γ.lower b) = .ok m)
    (hp : p ∈ [a, b]) : ∃ k, Γ.lower p = .ok k := by
  simp only [List.mem_cons, List.not_mem_nil, or_false] at hp
  rcases hp with rfl | rfl
  · exact lower_of_codeAs ha
  · exact lower_of_codeAs hb

theorem lower_part {p : Expr} (h : Γ.lower e = .ok k) (hp : p ∈ e.parts) :
    ∃ l, Γ.lower p = .ok l := by
  cases e with
  | int | float | bool | var => cases hp
  | neg x =>
    obtain rfl := List.mem_singleton.1 hp
    obtain ⟨t, i, l, -, -, hl, -⟩ := lower_neg.1 h
    exact lower_of_codeAs hl
  | not x =>
    obtain rfl := List.mem_singleton.1 hp
    obtain ⟨t, l, -, hl, -⟩ := lower_not.1 h
    exact lower_of_codeAs hl
  | arith op a b =>
    obtain ⟨t, l, m, i, -, hl, hm, -⟩ := lower_arith.1 h
    exact lower_mem_pair hl hm hp
  | compare c a b =>
    obtain ⟨t, l, m, -, hl, hm, -⟩ := lower_compare.1 h
    exact lower_mem_pair hl hm hp
  | and a b =>
    obtain ⟨t, l, m, -, hl, hm, -⟩ := lower_and.1 h
    exact lower_mem_pair hl hm hp
  | or a b =>
    obtain ⟨t, l, m, -, hl, hm, -⟩ := lower_or.1 h
    exact lower_mem_pair hl hm hp
  | cond c a b =>
    obtain ⟨t, l, m, n, -, hl, hm, hn, -⟩ := lower_cond.1 h
    rcases List.mem_cons.1 hp with rfl | hp
    · exact lower_of_codeAs hl
    · exact lower_mem_pair hm hn hp
  | call name args =>
    obtain ⟨t, g, l, -, -, -, hl, -⟩ := lower_call.1 h
    exact lower_of_lowerAll hl hp

theorem lower_node {n : Expr} (h : Γ.lower e = .ok k) (hn : n ∈ e.nodes) :
    ∃ l, Γ.lower n = .ok l := by
  induction e using Expr.induct_parts generalizing k with
  | step e ih =>
    rcases Expr.mem_nodes.1 hn with rfl | ⟨p, hp, hn⟩
    · exact ⟨k, h⟩
    · obtain ⟨l, hl⟩ := lower_part h hp
      exact ih p hp hl hn

theorem callsFit_of_lower (h : Γ.lower e = .ok k) : e.CallsFit := by
  intro name args hcall
  obtain ⟨l, hl⟩ := lower_node h hcall
  obtain ⟨t, g, m, -, -, harity, -⟩ := lower_call.1 hl
  have hbyte := g.arity.toNat_lt
  omega

/-! ## Names of variables -/

namespace Mirrored

open Pointwise.Expr

variable {σ : String → String} {Δ : Scope}

theorem codeAs_eq (h : Mirrored σ Γ Δ e) (t : DType) (code : Except Error Native.Code) :
    Δ.codeAs (renameVars σ e) t code = Γ.codeAs e t code := by
  rw [codeAs, codeAs, literal?_renameVars, h.typeOf_eq]

theorem lowerAll_map {es : List Expr} (hes : ∀ e ∈ es, Mirrored σ Γ Δ e)
    (h : ∀ e ∈ es, Δ.lower (renameVars σ e) = Γ.lower e) :
    Δ.lowerAll (es.map (renameVars σ)) = Γ.lowerAll es := by
  induction es with
  | nil => rfl
  | cons e es ih =>
    rw [List.forall_mem_cons] at h hes
    simp only [List.map_cons, lowerAll, hes.1.codeAs_eq, h.1, ih hes.2 h.2]

/-- An expression has the code that it has where its names have the same slots. The name is told if
there is no slot for it. -/
theorem lower_eq (h : Mirrored σ Γ Δ e)
    (hindex : ∀ x, .var x ∈ e.nodes →
      Δ.index? (σ x) = Γ.index? x ∧ (Γ.index? x = none → σ x = x)) :
    Δ.lower (renameVars σ e) = Γ.lower e := by
  induction e using Expr.induct with
  | int | float | bool => rfl
  | var x =>
    have hx := mem_nodes_self (.var x)
    obtain ⟨hslot, hname⟩ := hindex x hx
    rw [renameVars_var, lower, lower, h.typeOf_var hx, hslot]
    cases hi : Γ.index? x with
    | none => rw [hname hi]
    | some i => rfl
  | neg x ih | not x ih =>
    have ht := h.typeOf_eq
    have hx := h.part (p := x) (.head _)
    have hlower := ih hx fun y hy => hindex y (mem_nodes_of_part (.head _) hy)
    simp only [renameVars_neg, renameVars_not] at ht
    simp only [renameVars_neg, renameVars_not, lower, ht, hx.codeAs_eq, hlower]
  | arith op a b iha ihb | compare c a b iha ihb | and a b iha ihb | or a b iha ihb =>
    have ht := h.typeOf_eq
    have ha := h.part (p := a) (.head _)
    have hb := h.part (p := b) (.tail _ (.head _))
    have hlower := iha ha fun y hy => hindex y (mem_nodes_of_part (.head _) hy)
    have hlower' := ihb hb fun y hy => hindex y (mem_nodes_of_part (.tail _ (.head _)) hy)
    simp only [renameVars_arith, renameVars_compare, renameVars_and, renameVars_or] at ht
    simp only [renameVars_arith, renameVars_compare, renameVars_and, renameVars_or, lower, ht,
      commonType_eq ha hb, ha.codeAs_eq, hb.codeAs_eq, hlower, hlower', h.name]
  | cond c a b ihc iha ihb =>
    have ht := h.typeOf_eq
    have hc := h.part (p := c) (.head _)
    have ha := h.part (p := a) (.tail _ (.head _))
    have hb := h.part (p := b) (.tail _ (.tail _ (.head _)))
    have hlower := ihc hc fun y hy => hindex y (mem_nodes_of_part (.head _) hy)
    have hlower' := iha ha fun y hy => hindex y (mem_nodes_of_part (.tail _ (.head _)) hy)
    have hlower'' := ihb hb fun y hy =>
      hindex y (mem_nodes_of_part (.tail _ (.tail _ (.head _))) hy)
    simp only [renameVars_cond] at ht
    simp only [renameVars_cond, lower, ht, hc.codeAs_eq, ha.codeAs_eq, hb.codeAs_eq, hlower,
      hlower', hlower'']
  | call name args ih =>
    have ht := h.typeOf_eq
    have hargs : Δ.lowerAll (args.map (renameVars σ)) = Γ.lowerAll args :=
      lowerAll_map (fun a ha => h.part ha) fun a ha =>
        ih a ha (h.part ha) fun y hy => hindex y (mem_nodes_of_part ha hy)
    simp only [renameVars_call] at ht
    simp only [renameVars_call, lower, ht, hargs, List.length_map, h.host_eq]

theorem lowerAs_eq (h : Mirrored σ Γ Δ e)
    (hindex : ∀ x, .var x ∈ e.nodes →
      Δ.index? (σ x) = Γ.index? x ∧ (Γ.index? x = none → σ x = x)) (t : DType) :
    Δ.lowerAs (renameVars σ e) t = Γ.lowerAs e t := by
  rw [lowerAs, lowerAs, h.lower_eq hindex, h.codeAs_eq]

end Mirrored

end Scope

end Pointwise

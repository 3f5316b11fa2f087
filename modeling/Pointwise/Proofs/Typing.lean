import Pointwise.Proofs.Definition.Nodes
import Pointwise.Proofs.Outcome
import Pointwise.Proofs.Scalar.Arith
import Pointwise.Typing

/-!
# Types of checked expressions

What the type of an expression says about its parts, one lemma for each rule.
-/

namespace Pointwise

namespace Ty

theorem dtype_ne_bool {t : Ty} (h : t ≠ .concrete .bool) : t.dtype ≠ .bool := by
  cases t with
  | concrete u => simpa [dtype] using h
  | weakInt => simp [dtype]
  | weakFloat => simp [dtype]

theorem arith_ne_bool (s t : Ty) : s.arith t ≠ .concrete .bool := by
  unfold arith
  split
  · simp
  · assumption

theorem isFloat_quotient (s t : Ty) : (s.quotient t).dtype.isFloat = true := by
  unfold quotient
  split
  · rename_i u _
    by_cases h : u.isFloat = true
    · simp [dtype, h]
    · simp [dtype, h]; rfl
  · rfl

theorem allows_result (op : ArithOp) (s t : Ty) : op.Allows (result op s t).dtype := by
  cases op with
  | add | sub | mul => exact dtype_ne_bool (arith_ne_bool s t)
  | div => exact isFloat_quotient s t
  | max | min => trivial

end Ty

namespace Scope

attribute [simp] infer inferAll

variable {Γ : Scope} {t : Ty}

theorem typeOf_eq_ok {e : Expr} : Γ.typeOf e = .ok t ↔ Γ.infer e = .ok t := by
  unfold typeOf
  cases Γ.infer e <;> simp

theorem commonType_eq {a b : Expr} {s t : Ty} (ha : Γ.infer a = .ok s) (hb : Γ.infer b = .ok t) :
    Γ.commonType a b = .ok (s.combine t).dtype := by
  rw [commonType, typeOf_eq_ok.2 ha, typeOf_eq_ok.2 hb]
  rfl

theorem host_eq_ok {name : String} {n : Nat} {f : HostFn} :
    Γ.host name n = .ok f ↔ Γ.hosts.get? name (UInt8.ofNat n) = some f := by
  unfold host
  cases Γ.hosts.get? name (UInt8.ofNat n) <;> simp

/-! ## Errors -/

theorem typeOf_ends (e : Expr) :
    Ends (Γ.typeOf e) (fun _ => True) (· = .internal .untypedNode) := by
  unfold typeOf
  split
  · exact .ok trivial
  · exact .error rfl

theorem commonType_ends (a b : Expr) :
    Ends (Γ.commonType a b) (fun _ => True) (· = .internal .untypedNode) :=
  (typeOf_ends a).bind fun _ _ => (typeOf_ends b).bind fun _ _ => .ok trivial

theorem host_ends (name : String) (n : Nat) :
    Ends (Γ.host name n) (Γ.hosts.get? name (UInt8.ofNat n) = some ·)
      (· = .unknownFunction name (UInt8.ofNat n)) := by
  unfold host
  split
  · exact .ok (by assumption)
  · exact .error rfl

/-! ## Inversion -/

theorem infer_var {x : String} :
    Γ.infer (.var x) = .ok t ↔ ∃ u, Γ.paramType? x = some u ∧ t = .concrete u := by
  cases h : Γ.paramType? x <;> simp [h, eq_comm]

theorem infer_neg {x : Expr} :
    Γ.infer (.neg x) = .ok t ↔ Γ.infer x = .ok t ∧ t ≠ .concrete .bool := by
  rw [infer, bind_eq_ok]
  constructor
  · rintro ⟨u, hu, h⟩
    split at h
    · cases h
    · cases h; exact ⟨hu, by assumption⟩
  · rintro ⟨h, hb⟩
    exact ⟨t, h, by simp [hb]⟩

theorem infer_not {x : Expr} :
    Γ.infer (.not x) = .ok t ↔ (∃ s, Γ.infer x = .ok s) ∧ t = .concrete .bool := by
  simp only [infer, bind_eq_ok, Except.ok.injEq, eq_comm (b := t), ← exists_and_right]

theorem infer_arith {op : ArithOp} {a b : Expr} :
    Γ.infer (.arith op a b) = .ok t ↔
      ∃ s u, Γ.infer a = .ok s ∧ Γ.infer b = .ok u ∧ t = .result op s u := by
  simp only [infer, bind_eq_ok, Except.ok.injEq, eq_comm (b := t), ← exists_and_left]

theorem infer_compare {c : Binary.Comparison} {a b : Expr} :
    Γ.infer (.compare c a b) = .ok t ↔
      ∃ s u, Γ.infer a = .ok s ∧ Γ.infer b = .ok u ∧ t = .concrete .bool := by
  simp only [infer, bind_eq_ok, Except.ok.injEq, eq_comm (b := t), ← exists_and_left]

theorem infer_and {a b : Expr} :
    Γ.infer (.and a b) = .ok t ↔
      ∃ s u, Γ.infer a = .ok s ∧ Γ.infer b = .ok u ∧ t = .concrete .bool := by
  simp only [infer, bind_eq_ok, Except.ok.injEq, eq_comm (b := t), ← exists_and_left]

theorem infer_or {a b : Expr} :
    Γ.infer (.or a b) = .ok t ↔
      ∃ s u, Γ.infer a = .ok s ∧ Γ.infer b = .ok u ∧ t = .concrete .bool := by
  simp only [infer, bind_eq_ok, Except.ok.injEq, eq_comm (b := t), ← exists_and_left]

theorem infer_cond {c a b : Expr} :
    Γ.infer (.cond c a b) = .ok t ↔
      ∃ r s u, Γ.infer c = .ok r ∧ Γ.infer a = .ok s ∧ Γ.infer b = .ok u ∧ t = s.combine u := by
  simp only [infer, bind_eq_ok, Except.ok.injEq, eq_comm (b := t), ← exists_and_left]

theorem inferAll_eq_ok {es : List Expr} :
    Γ.inferAll es = .ok () ↔ ∀ e ∈ es, ∃ t, Γ.infer e = .ok t := by
  induction es with
  | nil => simp
  | cons e es ih => simp [bind_eq_ok, ih]

theorem infer_call {name : String} {args : List Expr} :
    Γ.infer (.call name args) = .ok t ↔
      (∀ a ∈ args, ∃ s, Γ.infer a = .ok s) ∧
        ∃ f, Γ.hosts.get? name (UInt8.ofNat args.length) = some f ∧ t = .concrete f.ret := by
  simp only [infer, bind_eq_ok, Except.ok.injEq, eq_comm (b := t), ← host_eq_ok]
  constructor
  · rintro ⟨_, h, f, hf, rfl⟩
    exact ⟨inferAll_eq_ok.1 h, f, hf, rfl⟩
  · rintro ⟨h, f, hf, rfl⟩
    exact ⟨(), inferAll_eq_ok.2 h, f, hf, rfl⟩

theorem infer_mem_pair {a b p : Expr} {s u : Ty} (ha : Γ.infer a = .ok s) (hb : Γ.infer b = .ok u)
    (hp : p ∈ [a, b]) : ∃ s, Γ.infer p = .ok s := by
  simp only [List.mem_cons, List.not_mem_nil, or_false] at hp
  rcases hp with rfl | rfl
  · exact ⟨s, ha⟩
  · exact ⟨u, hb⟩

theorem infer_part {e p : Expr} (h : Γ.infer e = .ok t) (hp : p ∈ e.parts) :
    ∃ s, Γ.infer p = .ok s := by
  cases e with
  | int | float | bool | var => simp [Expr.parts] at hp
  | neg x =>
    obtain rfl := List.mem_singleton.1 hp
    exact ⟨t, (infer_neg.1 h).1⟩
  | not x =>
    obtain rfl := List.mem_singleton.1 hp
    exact (infer_not.1 h).1
  | arith op a b =>
    obtain ⟨s, u, ha, hb, -⟩ := infer_arith.1 h
    exact infer_mem_pair ha hb hp
  | compare c a b =>
    obtain ⟨s, u, ha, hb, -⟩ := infer_compare.1 h
    exact infer_mem_pair ha hb hp
  | and a b =>
    obtain ⟨s, u, ha, hb, -⟩ := infer_and.1 h
    exact infer_mem_pair ha hb hp
  | or a b =>
    obtain ⟨s, u, ha, hb, -⟩ := infer_or.1 h
    exact infer_mem_pair ha hb hp
  | cond c a b =>
    obtain ⟨r, s, u, hc, ha, hb, -⟩ := infer_cond.1 h
    simp only [Expr.parts, List.mem_cons, List.not_mem_nil, or_false] at hp
    rcases hp with rfl | rfl | rfl
    · exact ⟨r, hc⟩
    · exact ⟨s, ha⟩
    · exact ⟨u, hb⟩
  | call name args => exact (infer_call.1 h).1 p hp

theorem infer_node {e n : Expr} (h : Γ.infer e = .ok t) (hn : n ∈ e.nodes) :
    ∃ s, Γ.infer n = .ok s := by
  induction e using Expr.induct_parts generalizing t with
  | step e ih =>
    rcases Expr.mem_nodes.1 hn with rfl | ⟨p, hp, hn⟩
    · exact ⟨t, h⟩
    · obtain ⟨s, hs⟩ := infer_part h hp
      exact ih p hp hs hn

end Scope

theorem Definition.check_eq_ok {d : Definition} {hosts : HostTable} {args : List DType}
    {body : Expr} {t : Ty} :
    d.check hosts args = .ok (body, t) ↔
      args.length = d.nin ∧ d.body = .ok body ∧ (d.scope hosts args).infer body = .ok t := by
  unfold check
  by_cases hn : args.length = d.nin
  · rw [if_neg (by simpa using hn)]
    simp only [bind_eq_ok, hn, true_and]
    constructor
    · rintro ⟨b, hb, s, hs, h⟩
      cases h
      exact ⟨hb, hs⟩
    · rintro ⟨hb, hs⟩
      exact ⟨body, hb, t, hs, rfl⟩
  · rw [if_pos (by simpa using hn)]
    simp [hn]

end Pointwise

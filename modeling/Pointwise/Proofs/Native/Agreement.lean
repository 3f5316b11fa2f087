import Pointwise.Proofs.Evaluation
import Pointwise.Proofs.Native.Instr
import Pointwise.Proofs.Native.Lowering

/-!
# Machine code agrees with boxed evaluation

The code of an expression leaves the stack as it was, below one more word. That is the word of an
element of the type that the expression was given, and of the one that the expression evaluates to
unless it contains an extremum of floating-point numbers.
-/

namespace Pointwise

namespace Scope

open Native

variable {Γ : Scope} {values : List Scalar}

/-- No maximum or minimum in an expression is one of floating-point numbers. -/
def NoFloatExtremum (Γ : Scope) (e : Expr) : Prop :=
  ∀ op a b t, .arith op a b ∈ e.nodes → op = .max ∨ op = .min →
    Γ.infer (.arith op a b) = .ok t → t.dtype.isFloat = false

theorem NoFloatExtremum.of_part {e p : Expr} (h : Γ.NoFloatExtremum e) (hp : p ∈ e.parts) :
    Γ.NoFloatExtremum p :=
  fun op a b t hn => h op a b t (Expr.mem_nodes_of_part hp hn)

/-- Code that pushes the word of an element, whatever is on the stack. -/
def Pushes (values : List Scalar) (k : Code) (v : Scalar) : Prop :=
  ∀ stack, run (values.map Loop.slot) stack k = v.toWord :: stack

theorem pushes_const (v : Scalar) : Pushes values [.const v.toWord] v := fun _ => rfl

theorem Pushes.cast {k : Code} {v : Scalar} {t : DType} (h : Pushes values k v) (hv : v.dtype = t)
    (u : DType) : Pushes values (k ++ castCode t u) (v.cast u) := by
  intro stack
  subst hv
  rw [run_append, h, run_castCode]

theorem Pushes.binary {k l : Code} {i : Instr} {a b v : Scalar} (ha : Pushes values k a)
    (hb : Pushes values l b)
    (hi : ∀ slots stack, run slots (b.toWord :: a.toWord :: stack) [i] = v.toWord :: stack) :
    Pushes values (k ++ l ++ [i]) v := by
  intro stack
  rw [run_append, run_append, ha, hb, hi]

theorem Pushes.unary {k : Code} {i : Instr} {a v : Scalar} (ha : Pushes values k a)
    (hi : ∀ slots stack, run slots (a.toWord :: stack) [i] = v.toWord :: stack) :
    Pushes values (k ++ [i]) v := by
  intro stack
  rw [run_append, ha, hi]

theorem Pushes.branch {k l m : Code} {c v : Scalar} (hc : Pushes values k c) (hb : c.dtype = .bool)
    (hl : c.isTruthy = true → Pushes values l v) (hm : c.isTruthy = false → Pushes values m v) :
    Pushes values (k ++ [.branch l m]) v := by
  intro stack
  rw [run_append, hc, toWord_of_bool hb]
  simp only [run, exec, Stack.pop, read_truth]
  cases ht : c.isTruthy with
  | true => exact hl ht stack
  | false => exact hm ht stack

theorem Pushes.truth {k : Code} {v : Scalar} (h : Pushes values k v) (hb : v.dtype = .bool) :
    Pushes values k (.bool v.isTruthy) := by
  intro stack
  rw [h, toWord_of_bool hb]
  rfl

/-- Code pushes an element of a type, which is the given result unless an expression has an extremum
of floating-point numbers. -/
def Delivers (Γ : Scope) (values : List Scalar) (e : Expr) (k : Code) (t : DType)
    (result : Except Error Scalar) : Prop :=
  ∃ v, v.dtype = t ∧ Pushes values k v ∧ (Γ.NoFloatExtremum e → result = .ok v)

variable {e : Expr} {t : Ty} {u : DType} {k : Code}

theorem Delivers.of_part {p : Expr} {r : Except Error Scalar} (hp : p ∈ e.parts)
    (h : Γ.Delivers values p k u r) : Γ.Delivers values e k u r := by
  obtain ⟨v, hv, hpush, hr⟩ := h
  exact ⟨v, hv, hpush, fun hext => hr (hext.of_part hp)⟩

theorem delivers_codeAs {p : Expr} (ht : Γ.infer p = .ok t)
    (h : ∀ k, Γ.lower p = .ok k → Γ.Delivers values e k t.dtype (Γ.eval values p))
    (hk : Γ.codeAs p u (Γ.lower p) = .ok k) :
    Γ.Delivers values e k u (asType p u (Γ.eval values p)) := by
  unfold asType
  rcases codeAs_iff.1 hk with ⟨s, hs, rfl⟩ | ⟨hnone, t', l, ht', hl, rfl⟩
  · rw [hs]
    exact ⟨s.cast u, Scalar.dtype_cast s u, pushes_const _, fun _ => rfl⟩
  · cases ht'.symm.trans ht
    obtain ⟨v, hv, hpush, hr⟩ := h l hl
    refine ⟨v.cast u, Scalar.dtype_cast v u, hpush.cast hv u, fun hext => ?_⟩
    rw [hnone, hr hext]
    rfl

/-! ## Calls -/

theorem callOn_append {f : NativeFn} {ws : List (BitVec 64)} {y : BitVec 64}
    (h : f.result? ws = some y) (stack : Stack) : callOn f (ws.reverse ++ stack) = y :: stack := by
  match f, ws with
  | .unary f, [x] => cases h; rfl
  | .binary f, [x, y] => cases h; rfl
  | .ternary f, [x, y, z] => cases h; rfl
  | .unary f, [] | .unary f, _ :: _ :: _ => cases h
  | .binary f, [] | .binary f, [_] | .binary f, _ :: _ :: _ :: _ => cases h
  | .ternary f, [] | .ternary f, [_] | .ternary f, [_, _] | .ternary f, _ :: _ :: _ :: _ :: _ =>
    cases h

theorem toDouble_of_float64 {s : Scalar} (h : s.dtype = .float64) : s.toDouble = s.toWord := by
  obtain ⟨t, x⟩ := s
  obtain rfl : t = .float64 := h
  rfl

theorem delivers_lowerAll {args : List Expr}
    (h : ∀ a ∈ args, ∀ k, Γ.codeAs a .float64 (Γ.lower a) = .ok k →
      Γ.Delivers values e k .float64 (asType a .float64 (Γ.eval values a)))
    (hk : Γ.lowerAll args = .ok k) :
    ∃ vs, vs.length = args.length ∧
      (∀ stack, run (values.map Loop.slot) stack k = (vs.map Scalar.toDouble).reverse ++ stack) ∧
      (Γ.NoFloatExtremum e → Γ.evalAll values (some .float64) args = .ok vs) := by
  induction args generalizing k with
  | nil =>
    cases hk
    exact ⟨[], rfl, fun _ => rfl, fun _ => rfl⟩
  | cons a args ih =>
    obtain ⟨l, m, hl, hm, rfl⟩ := lowerAll_cons.1 hk
    obtain ⟨v, hdouble, hpush, hv⟩ := h a (.head _) l hl
    obtain ⟨vs, hlength, hrun, hvs⟩ := ih (fun b hb => h b (.tail _ hb)) hm
    refine ⟨v :: vs, congrArg Nat.succ hlength, fun stack => ?_, fun hext => ?_⟩
    · rw [run_append, hpush, hrun, List.map_cons, toDouble_of_float64 hdouble]
      simp
    · simp only [evalAll, hv hext, hvs hext, ok_bind]

/-! ## Agreement -/

theorem pushes_load {i : Nat} {v : Scalar} (hv : values[i]? = some v) :
    Pushes values [.load i v.dtype.lane] v := by
  intro stack
  have hslot : (values.map Loop.slot).getD i 0 = v.toWord := by
    simp [List.getD_eq_getElem?_getD, hv, Loop.slot_eq_toWord]
  simp only [run, exec, hslot, word_read_toWord]

theorem delivers_lower (hvalues : values.map Scalar.dtype = Γ.args) (h : Γ.infer e = .ok t)
    (hk : Γ.lower e = .ok k) : Γ.Delivers values e k t.dtype (Γ.eval values e) := by
  induction e using Expr.induct_parts generalizing t k with
  | step e ih =>
    have part (p : Expr) (hp : p ∈ e.parts) {u : DType} {l : Code}
        (hl : Γ.codeAs p u (Γ.lower p) = .ok l) :
        Γ.Delivers values e l u (asType p u (Γ.eval values p)) := by
      obtain ⟨s, hs⟩ := infer_part h hp
      exact delivers_codeAs hs (fun k hk => (ih p hp hs hk).of_part hp) hl
    cases e with
    | int n | float p | bool b =>
      cases (lower_of_literal? rfl).symm.trans hk
      obtain ⟨hdtype, hv⟩ := @eval_of_literal? Γ values _ _ _ rfl h
      exact ⟨_, hdtype, pushes_const _, fun _ => hv⟩
    | var x =>
      obtain ⟨u, hu, rfl⟩ := infer_var.1 h
      obtain ⟨s, i, hs, hi, rfl⟩ := lower_var.1 hk
      cases hs.symm.trans h
      obtain ⟨j, v, hj, hv, rfl⟩ := value_of_paramType? hvalues hu
      cases hj.symm.trans hi
      exact ⟨v, rfl, pushes_load hv, fun _ => eval_var h hj hv⟩
    | neg x =>
      obtain ⟨s, i, l, hs, hi, hl, rfl⟩ := lower_neg.1 hk
      cases hs.symm.trans h
      obtain ⟨v, hv, hpush, heval⟩ := part x (.head _) hl
      obtain ⟨r, hr, hrt⟩ := Scalar.neg_eq_ok (hv ▸ Ty.dtype_ne_bool (infer_neg.1 h).2)
      exact ⟨r, hrt.trans hv, hpush.unary fun slots stack => run_negInstr slots stack (hv ▸ hi) hr,
        fun hext => (eval_neg h (heval hext)).trans hr⟩
    | not x =>
      obtain ⟨s, l, -, hl, rfl⟩ := lower_not.1 hk
      obtain ⟨-, rfl⟩ := infer_not.1 h
      obtain ⟨v, hv, hpush, heval⟩ := part x (.head _) hl
      refine ⟨.bool !v.isTruthy, rfl, hpush.unary fun slots stack => ?_,
        fun hext => eval_not h (heval hext)⟩
      rw [run_unary, toWord_of_bool hv, apply_flip]
      rfl
    | arith op a b =>
      obtain ⟨_, l, m, i, hs, hl, hm, hi, rfl⟩ := lower_arith.1 hk
      cases hs.symm.trans h
      obtain ⟨s, u, -, -, rfl⟩ := infer_arith.1 h
      obtain ⟨v, hv, hpush, heval⟩ := part a (.head _) hl
      obtain ⟨w, hw, hpush', heval'⟩ := part b (.tail _ (.head _)) hm
      obtain ⟨r, hr, hrun, hbinary⟩ := exists_run_arithInstr (hv.trans hw.symm)
        (hv ▸ Ty.allows_result op s u) (hv ▸ hi)
      refine ⟨r, hr.trans hv, hpush.binary hpush' hrun, fun hext => ?_⟩
      rw [eval_arith h (heval hext) (heval' hext)]
      exact hbinary fun hop => hv ▸ hext op a b _ (Expr.mem_nodes_self _) hop h
    | compare c a b =>
      obtain ⟨u, l, m, hu, hl, hm, rfl⟩ := lower_compare.1 hk
      obtain ⟨-, -, -, -, rfl⟩ := infer_compare.1 h
      obtain ⟨v, rfl, hpush, heval⟩ := part a (.head _) hl
      obtain ⟨w, hw, hpush', heval'⟩ := part b (.tail _ (.head _)) hm
      obtain ⟨r, hr⟩ := Scalar.compare_eq_ok c hw.symm
      exact ⟨.bool r, rfl,
        hpush.binary hpush' fun slots stack => run_compareInstr slots stack hw.symm hr,
        fun hext => eval_compare hu (heval hext) (heval' hext) hr⟩
    | and a b =>
      obtain ⟨s, l, m, -, hl, hm, rfl⟩ := lower_and.1 hk
      obtain ⟨-, -, -, -, rfl⟩ := infer_and.1 h
      obtain ⟨v, hv, hpush, heval⟩ := part a (.head _) hl
      obtain ⟨w, hw, hpush', heval'⟩ := part b (.tail _ (.head _)) hm
      refine ⟨.bool (v.isTruthy && w.isTruthy), rfl, hpush.branch hv (fun htrue => ?_)
        fun hfalse => ?_, fun hext => eval_and h (heval hext) (heval' hext)⟩
      · rw [htrue, Bool.true_and]
        exact hpush'.truth hw
      · rw [hfalse]
        exact pushes_const (.bool false)
    | or a b =>
      obtain ⟨s, l, m, -, hl, hm, rfl⟩ := lower_or.1 hk
      obtain ⟨-, -, -, -, rfl⟩ := infer_or.1 h
      obtain ⟨v, hv, hpush, heval⟩ := part a (.head _) hl
      obtain ⟨w, hw, hpush', heval'⟩ := part b (.tail _ (.head _)) hm
      refine ⟨.bool (v.isTruthy || w.isTruthy), rfl, hpush.branch hv (fun htrue => ?_)
        fun hfalse => ?_, fun hext => eval_or h (heval hext) (heval' hext)⟩
      · rw [htrue]
        exact pushes_const (.bool true)
      · rw [hfalse, Bool.false_or]
        exact hpush'.truth hw
    | cond c a b =>
      obtain ⟨s, l, m, n, hs, hl, hm, hn, rfl⟩ := lower_cond.1 hk
      cases hs.symm.trans h
      obtain ⟨z, hz, hpush, heval⟩ := part c (.head _) hl
      obtain ⟨v, hv, hpush', heval'⟩ := part a (.tail _ (.head _)) hm
      obtain ⟨w, hw, hpush'', heval''⟩ := part b (.tail _ (.tail _ (.head _))) hn
      refine ⟨if z.isTruthy then v else w, by split <;> assumption,
        hpush.branch hz (fun htrue => ?_) fun hfalse => ?_,
        fun hext => eval_cond h (heval hext) (heval' hext) (heval'' hext)⟩
      · rwa [if_pos htrue]
      · rwa [if_neg (by simp [hfalse])]
    | call name args =>
      obtain ⟨s, g, l, hs, hg, harity, hl, rfl⟩ := lower_call.1 hk
      cases hs.symm.trans h
      obtain ⟨-, f, hf, rfl⟩ := infer_call.1 h
      cases hf.symm.trans hg
      obtain ⟨vs, hlength, hrun, hvs⟩ := delivers_lowerAll (fun a (ha : a ∈ args) k => part a ha) hl
      have hfits : g.arity.toNat = (vs.map Scalar.toDouble).length := by
        rw [harity, List.length_map, hlength]
      obtain ⟨y, hy, hcall⟩ := g.call_eq_ok hfits
      refine ⟨.float64 y, rfl, fun stack => ?_, fun hext => ?_⟩
      · rw [run_append, hrun, run, exec, callOn_append hy]
        rfl
      · have hargs : Γ.evalAll values (HostFn.native g).argType? args = .ok vs := hvs hext
        rw [eval_call h hf, hargs, ok_bind, callHost, hcall, ok_bind]

theorem delivers_lowerAs (hvalues : values.map Scalar.dtype = Γ.args) (h : Γ.infer e = .ok t)
    (hk : Γ.lowerAs e u = .ok k) : Γ.Delivers values e k u (Γ.evalAs values e u) :=
  delivers_codeAs h (fun _ => delivers_lower hvalues h) hk

end Scope

end Pointwise

import Pointwise.Proofs.Boxed
import Pointwise.Proofs.Native.Agreement
import Pointwise.Proofs.Scalar.Integers

/-!
# Integers of different types

Two integers or truth values of any types are compared in the type that both are promoted to. If
that is no floating-point type, the comparisons and the extrema are those of the numbers, in boxed
evaluation and in machine code.
-/

namespace Pointwise

namespace Scope

open Native

variable {Γ : Scope} {values : List Scalar}

/-- Machine code for an expression leaves an element of the expression's type. -/
def Computes (Γ : Scope) (values : List Scalar) (e : Expr) (v : Scalar) : Prop :=
  ∃ t k, Γ.infer e = .ok t ∧ Γ.lower e = .ok k ∧ v.dtype = t.dtype ∧ Pushes values k v

/-- The comparisons of two expressions, and their extrema in a type, are those of the numbers. -/
structure Orders (evaluates : Expr → Scalar → Prop) (a b : Expr) (t : DType) : Prop where
  compare : ∀ {v w}, evaluates a v → evaluates b w → ∀ c,
    evaluates (.compare c a b) (.bool (decide (c.Relates v.toInt w.toInt)))
  max : ∀ {v w}, evaluates a v → evaluates b w →
    ∃ r, evaluates (.arith .max a b) r ∧ r.dtype = t ∧ r.toInt = Max.max v.toInt w.toInt
  min : ∀ {v w}, evaluates a v → evaluates b w →
    ∃ r, evaluates (.arith .min a b) r ∧ r.dtype = t ∧ r.toInt = Min.min v.toInt w.toInt

/-! ## Converted operands -/

theorem Computes.codeAs {e : Expr} {v : Scalar} (h : Γ.Computes values e v) (u : DType) :
    ∃ k, Γ.codeAs e u (Γ.lower e) = .ok k ∧ Pushes values k (v.cast u) := by
  obtain ⟨t, k, ht, hk, hv, hpush⟩ := h
  cases hliteral : e.literal? with
  | none => exact ⟨_, codeAs_iff.2 (.inr ⟨hliteral, t, k, ht, hk, rfl⟩), hpush.cast hv u⟩
  | some s =>
    have hs : s.dtype = t.dtype := (@eval_of_literal? Γ values e s t hliteral ht).1
    cases (lower_of_literal? hliteral).symm.trans hk
    -- The type and the word determine the element.
    have hstack := (hpush []).symm.trans (pushes_const s [])
    have hvs : v = s := by
      rw [← Loop.result_toWord v [], ← Loop.result_toWord s [], hstack, hv, hs]
    exact ⟨_, codeAs_iff.2 (.inl ⟨s, hliteral, rfl⟩), hvs ▸ pushes_const _⟩

/-! ## One operation -/

section

variable {a b : Expr} {s u t : Ty} {v w r : Scalar} {op : ArithOp} {c : Binary.Comparison}

theorem Computes.compare (ha : Γ.infer a = .ok s) (hb : Γ.infer b = .ok u)
    (hv : Γ.Computes values a v) (hw : Γ.Computes values b w) {p : Bool}
    (hp : (v.cast (s.combine u).dtype).compare c (w.cast (s.combine u).dtype) = .ok p) :
    Γ.Computes values (.compare c a b) (.bool p) := by
  obtain ⟨k, hk, hpushk⟩ := hv.codeAs (s.combine u).dtype
  obtain ⟨l, hl, hpushl⟩ := hw.codeAs (s.combine u).dtype
  have hsame : (v.cast (s.combine u).dtype).dtype = (w.cast (s.combine u).dtype).dtype := by simp
  refine ⟨.concrete .bool, k ++ l ++ [compareInstr c (s.combine u).dtype],
    infer_compare.2 ⟨s, u, ha, hb, rfl⟩,
    lower_compare.2 ⟨_, k, l, commonType_eq ha hb, hk, hl, rfl⟩, rfl, hpushk.binary hpushl fun slots stack => ?_⟩
  have hrun := run_compareInstr slots stack hsame hp
  rwa [Scalar.dtype_cast] at hrun

theorem Computes.arith (ht : Γ.infer (.arith op a b) = .ok t)
    (hext : op = .max ∨ op = .min → t.dtype.isFloat = false) (hv : Γ.Computes values a v)
    (hw : Γ.Computes values b w) (hr : (v.cast t.dtype).binary op (w.cast t.dtype) = .ok r) :
    Γ.Computes values (.arith op a b) r := by
  obtain ⟨s, u, ha, hb, rfl⟩ := infer_arith.1 ht
  obtain ⟨k, hk, hpushk⟩ := hv.codeAs (Ty.result op s u).dtype
  obtain ⟨l, hl, hpushl⟩ := hw.codeAs (Ty.result op s u).dtype
  obtain ⟨i, hi⟩ := arithInstr_eq_ok Γ.name (Ty.allows_result op s u)
  have hsame : (v.cast (Ty.result op s u).dtype).dtype = (w.cast (Ty.result op s u).dtype).dtype := by
    simp
  obtain ⟨r', hr', hdtype⟩ := Scalar.binary_eq_ok hsame
    (by simpa using Ty.allows_result op s u)
  cases hr'.symm.trans hr
  exact ⟨_, k ++ l ++ [i], ht, lower_arith.2 ⟨_, k, l, i, ht, hk, hl, hi, rfl⟩,
    by simpa using hdtype, hpushk.binary hpushl fun slots stack =>
      run_arithInstr slots stack hsame (by simpa using hext) (by simpa using hi) hr⟩

end

/-! ## The order of the numbers -/

section

variable {a b : Expr} {s u : DType} {evaluates : Expr → Scalar → Prop}

theorem orders_of_operations (hfloat : (s.promote u).isFloat = false)
    (ha : ∀ {v}, evaluates a v → v.dtype = s) (hb : ∀ {w}, evaluates b w → w.dtype = u)
    (hcompare : ∀ {v w c p}, evaluates a v → evaluates b w →
      (v.cast (s.promote u)).compare c (w.cast (s.promote u)) = .ok p →
        evaluates (.compare c a b) (.bool p))
    (hextremum : ∀ {v w op r}, op = .max ∨ op = .min → evaluates a v → evaluates b w →
      (v.cast (s.promote u)).binary op (w.cast (s.promote u)) = .ok r →
        evaluates (.arith op a b) r) :
    Orders evaluates a b (s.promote u) := by
  have hkept {v w} (hv : evaluates a v) (hw : evaluates b w) :
      (v.cast (s.promote u)).toInt = v.toInt ∧ (w.cast (s.promote u)).toInt = w.toInt := by
    rw [← ha hv, ← hb hw] at hfloat ⊢
    exact Scalar.toInt_cast_promote hfloat
  have hbinary {v w} {op : ArithOp} (hop : op = .max ∨ op = .min) (hv : evaluates a v)
      (hw : evaluates b w) :
      ∃ r, evaluates (.arith op a b) r ∧ r.dtype = s.promote u ∧
        r.toInt = op.onIntegers v.toInt w.toInt := by
    obtain ⟨r, hr, hdtype, hnumber⟩ := Scalar.exists_extremum hop
      (Scalar.dtype_cast v (s.promote u)) (Scalar.dtype_cast w (s.promote u)) hfloat
    rw [(hkept hv hw).1, (hkept hv hw).2] at hnumber
    exact ⟨r, hextremum hop hv hw hr, hdtype, hnumber⟩
  refine ⟨fun {v w} hv hw c => hcompare hv hw ?_, hbinary (.inl rfl), hbinary (.inr rfl)⟩
  have hp := Scalar.compare_of_not_float c (x := v.cast (s.promote u)) (y := w.cast (s.promote u))
    (by simp) (by simpa using hfloat)
  rwa [(hkept hv hw).1, (hkept hv hw).2] at hp

/--
Where two expressions have types whose promotion is no floating-point type, their comparisons and
their extrema are those of the numbers that they evaluate to, and the extrema have the promoted
type. This holds of boxed evaluation and of machine code, which evaluates all that it is made for.
-/
theorem orders_integers (registered : Γ.hosts.Registered)
    (hvalues : values.map Scalar.dtype = Γ.args) (ha : Γ.infer a = .ok (.concrete s))
    (hb : Γ.infer b = .ok (.concrete u)) (hfloat : (s.promote u).isFloat = false) :
    Orders (fun e v => Γ.eval values e = .ok v) a b (s.promote u) ∧
      Orders (Γ.Computes values) a b (s.promote u) ∧
      ∀ e k, e = a ∨ e = b → Γ.lower e = .ok k → ∃ v, Γ.Computes values e v := by
  have hinfer {op : ArithOp} (hop : op = .max ∨ op = .min) :
      Γ.infer (.arith op a b) = .ok (.concrete (s.promote u)) := by
    rcases hop with rfl | rfl
    · exact infer_arith.2 ⟨_, _, ha, hb, rfl⟩
    · exact infer_arith.2 ⟨_, _, ha, hb, rfl⟩
  have hdtype {e : Expr} {t : DType} {v : Scalar} (ht : Γ.infer e = .ok (.concrete t))
      (hv : Γ.Computes values e v) : v.dtype = t := by
    obtain ⟨t', -, ht', -, hv, -⟩ := hv
    cases ht'.symm.trans ht
    exact hv
  refine ⟨?boxed, ?native, ?compiled⟩
  case boxed =>
    exact orders_of_operations hfloat (eval_ends registered hvalues ha).of_ok
      (eval_ends registered hvalues hb).of_ok (fun hv hw hp => eval_compare (commonType_eq ha hb)
        (asType_of_eval ha hv _) (asType_of_eval hb hw _) hp)
      fun hop hv hw hr => (eval_arith (hinfer hop) (asType_of_eval ha hv _)
        (asType_of_eval hb hw _)).trans hr
  case native =>
    exact orders_of_operations hfloat (hdtype ha) (hdtype hb)
      (fun hv hw hp => .compare ha hb hv hw hp) fun hop => .arith (hinfer hop) fun _ => hfloat
  case compiled =>
    intro e k he hk
    obtain ⟨t, ht⟩ : ∃ t, Γ.infer e = .ok t := by
      rcases he with rfl | rfl
      · exact ⟨_, ha⟩
      · exact ⟨_, hb⟩
    obtain ⟨v, hv, hpush, -⟩ := delivers_lower hvalues ht hk
    exact ⟨v, t, k, ht, hk, hv, hpush⟩

end

end Scope

/-! ## A negative number and one without a sign -/

/-- Two parameters, of 8 bits with a sign and of 32 bits without one. -/
def Scope.mixed : Scope := ⟨"f", ["a", "b"], [.int8, .uint32], .empty⟩

theorem Scope.orders_integers_mixed :
    DType.promote .int8 .uint32 = .int64 ∧
      mixed.eval [.ofInt (-1) .int8, .ofInt 1 .uint32] (.compare .lt (.var "a") (.var "b")) =
        .ok (.bool true) ∧
      ∃ v w, mixed.Computes [.ofInt (-1) .int8, .ofInt 1 .uint32] (.var "a") v ∧
        mixed.Computes [.ofInt (-1) .int8, .ofInt 1 .uint32] (.var "b") w ∧
        mixed.Computes [.ofInt (-1) .int8, .ofInt 1 .uint32] (.compare .lt (.var "a") (.var "b"))
          (.bool (decide (v.toInt < w.toInt))) := by
  have hvalues : [Scalar.ofInt (-1) .int8, .ofInt 1 .uint32].map Scalar.dtype = mixed.args := rfl
  obtain ⟨hboxed, hnative, hcompiled⟩ := orders_integers (a := .var "a") (b := .var "b")
    (s := .int8) (u := .uint32) .empty hvalues rfl rfl rfl
  obtain ⟨v, hv⟩ := hcompiled (.var "a") _ (.inl rfl) rfl
  obtain ⟨w, hw⟩ := hcompiled (.var "b") _ (.inr rfl) rfl
  exact ⟨rfl, hboxed.compare rfl rfl .lt, v, w, hv, hw, hnative.compare hv hw .lt⟩

end Pointwise

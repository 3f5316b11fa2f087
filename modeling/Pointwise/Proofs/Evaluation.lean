import Pointwise.Boxed
import Pointwise.Proofs.Typing

/-!
# Steps of an evaluation

What a boxed evaluation does at each kind of expression: an equation for expressions whose parts
have values, and a rule that carries the ways in which the parts can end to the whole.
-/

namespace Pointwise.Scope

variable {Γ : Scope} {values : List Scalar}

/-! ## Conversions and argument lists -/

theorem asType_ends {e : Expr} {r : Except Error Scalar} {good : Scalar → Prop}
    {bad : Error → Prop} (u : DType) (h : Ends r good bad) :
    Ends (asType e u r) (·.dtype = u) bad := by
  unfold asType
  cases e.literal? with
  | some s => exact Ends.ok (Scalar.dtype_cast s u)
  | none => exact h.map fun v _ => Scalar.dtype_cast v u

theorem asTruth_ends {e : Expr} {r : Except Error Scalar} {good : Scalar → Prop}
    {bad : Error → Prop} (h : Ends r good bad) : Ends (asTruth e r) (fun _ => True) bad :=
  (asType_ends .bool h).bind fun _ _ => Ends.ok trivial

theorem evalAll_ends {good : Scalar → Prop} {bad : Error → Prop} (t? : Option DType)
    {args : List Expr} (h : ∀ a ∈ args, Ends (Γ.eval values a) good bad) :
    Ends (Γ.evalAll values t? args) (·.length = args.length) bad := by
  induction args with
  | nil => exact Ends.ok rfl
  | cons a args ih =>
    have ha : Ends (Γ.eval values a) good bad := h a (by simp)
    have hargs := ih fun b hb => h b (by simp [hb])
    have hlist (v : Scalar) : Ends (do let vs ← Γ.evalAll values t? args; .ok (v :: vs))
        (·.length = (a :: args).length) bad :=
      hargs.bind fun vs hvs => Ends.ok (by simpa using hvs)
    cases t? with
    | none => exact ha.bind fun v _ => hlist v
    | some t => exact (asType_ends t ha).bind fun v _ => hlist v

theorem value_of_paramType? {x : String} {t : DType} (hv : values.map Scalar.dtype = Γ.args)
    (h : Γ.paramType? x = some t) :
    ∃ i v, Γ.index? x = some i ∧ values[i]? = some v ∧ v.dtype = t := by
  obtain ⟨i, hi, hit⟩ := Option.bind_eq_some_iff.1 h
  rw [← hv, List.getElem?_map] at hit
  obtain ⟨v, hiv, rfl⟩ := Option.map_eq_some_iff.1 hit
  exact ⟨i, v, hi, hiv, rfl⟩

/-! ## One step of an evaluation -/

theorem eval_of_literal? {e : Expr} {s : Scalar} {t : Ty} (hs : e.literal? = some s)
    (ht : Γ.infer e = .ok t) : s.dtype = t.dtype ∧ Γ.eval values e = .ok s := by
  have hdtype : s.dtype = t.dtype := by
    cases e with
    | int n | float p | bool b =>
      cases hs
      cases ht
      rfl
    | _ => cases hs
  rw [eval_literal Γ hs (typeOf_eq_ok.2 ht), Scalar.cast_of_dtype hdtype]
  exact ⟨hdtype, rfl⟩

theorem asType_of_eval {e : Expr} {t : Ty} {v : Scalar} (ht : Γ.infer e = .ok t)
    (hv : Γ.eval values e = .ok v) (u : DType) :
    asType e u (Γ.eval values e) = .ok (v.cast u) := by
  unfold asType
  cases hliteral : e.literal? with
  | none => rw [hv, map_ok]
  | some s =>
    have heval : Γ.eval values e = .ok s := (eval_of_literal? hliteral ht).2
    cases heval.symm.trans hv
    rfl

theorem asTruth_eq_ok {e : Expr} {r : Except Error Scalar} {v : Scalar}
    (hv : asType e .bool r = .ok v) : asTruth e r = .ok v.isTruthy := by
  rw [asTruth, hv, ok_bind]

section

variable {a b c x : Expr} {t : Ty} {v w z : Scalar}

theorem eval_var {name : String} {i : Nat} (ht : Γ.infer (.var name) = .ok t)
    (hi : Γ.index? name = some i) (hv : values[i]? = some v) :
    Γ.eval values (.var name) = .ok v := by
  rw [eval, typeOf_eq_ok.2 ht, ok_bind, hi, Option.bind_some, hv, Option.elim_some]

theorem eval_neg (ht : Γ.infer (.neg x) = .ok t)
    (hv : asType x t.dtype (Γ.eval values x) = .ok v) : Γ.eval values (.neg x) = v.neg := by
  rw [eval, typeOf_eq_ok.2 ht, ok_bind, hv, ok_bind]

theorem eval_not (ht : Γ.infer (.not x) = .ok t) (hv : asType x .bool (Γ.eval values x) = .ok v) :
    Γ.eval values (.not x) = .ok (.bool !v.isTruthy) := by
  rw [eval, typeOf_eq_ok.2 ht, ok_bind, asTruth_eq_ok hv, ok_bind]

theorem eval_arith {op : ArithOp} (ht : Γ.infer (.arith op a b) = .ok t)
    (hv : asType a t.dtype (Γ.eval values a) = .ok v)
    (hw : asType b t.dtype (Γ.eval values b) = .ok w) :
    Γ.eval values (.arith op a b) = v.binary op w := by
  rw [eval, typeOf_eq_ok.2 ht, ok_bind, hv, ok_bind, hw, ok_bind]

theorem eval_compare {k : Binary.Comparison} {u : DType} {p : Bool}
    (hu : Γ.commonType a b = .ok u) (hv : asType a u (Γ.eval values a) = .ok v)
    (hw : asType b u (Γ.eval values b) = .ok w) (hp : v.compare k w = .ok p) :
    Γ.eval values (.compare k a b) = .ok (.bool p) := by
  rw [eval, hu, ok_bind, hv, ok_bind, hw, ok_bind, hp, ok_bind]

theorem eval_and (ht : Γ.infer (.and a b) = .ok t) (hv : asType a .bool (Γ.eval values a) = .ok v)
    (hw : asType b .bool (Γ.eval values b) = .ok w) :
    Γ.eval values (.and a b) = .ok (.bool (v.isTruthy && w.isTruthy)) := by
  rw [eval, typeOf_eq_ok.2 ht, ok_bind, asTruth_eq_ok hv, asTruth_eq_ok hw]
  cases v.isTruthy <;> rfl

theorem eval_or (ht : Γ.infer (.or a b) = .ok t) (hv : asType a .bool (Γ.eval values a) = .ok v)
    (hw : asType b .bool (Γ.eval values b) = .ok w) :
    Γ.eval values (.or a b) = .ok (.bool (v.isTruthy || w.isTruthy)) := by
  rw [eval, typeOf_eq_ok.2 ht, ok_bind, asTruth_eq_ok hv, asTruth_eq_ok hw]
  cases v.isTruthy <;> rfl

theorem eval_cond (ht : Γ.infer (.cond c a b) = .ok t)
    (hz : asType c .bool (Γ.eval values c) = .ok z)
    (hv : asType a t.dtype (Γ.eval values a) = .ok v)
    (hw : asType b t.dtype (Γ.eval values b) = .ok w) :
    Γ.eval values (.cond c a b) = .ok (if z.isTruthy then v else w) := by
  rw [eval, typeOf_eq_ok.2 ht, ok_bind, asTruth_eq_ok hz, ok_bind, hv, hw]
  split <;> rfl

theorem eval_call {name : String} {args : List Expr} {f : HostFn}
    (ht : Γ.infer (.call name args) = .ok t)
    (hf : Γ.hosts.get? name (UInt8.ofNat args.length) = some f) :
    Γ.eval values (.call name args) = Γ.evalAll values f.argType? args >>= callHost f := by
  rw [eval, typeOf_eq_ok.2 ht, ok_bind, host_eq_ok.2 hf, ok_bind]

end

/-! ## Rules for the ways to end -/

section

variable {any any' any'' good : Scalar → Prop} {bad : Error → Prop} {typed : Ty → Prop}
  {a b c x : Expr}

theorem literal_ends {e : Expr} {s : Scalar} (hs : e.literal? = some s)
    (ht : Ends (Γ.typeOf e) typed bad)
    (h : ∀ (t : Ty) (v : Scalar), typed t → v.dtype = t.dtype → good v) :
    Ends (Γ.eval values e) good bad := by
  cases e with
  | int n | float p | bool b =>
    rw [eval]
    exact ht.bind fun t htyped => Ends.ok (h t _ htyped (Scalar.dtype_cast _ _))
  | _ => cases hs

theorem var_ends {name : String} (ht : Ends (Γ.typeOf (.var name)) typed bad)
    (h : ∀ v, (Γ.index? name).bind (values[·]?) = some v → good v)
    (hnone : (Γ.index? name).bind (values[·]?) = none → bad (.unknownIdent name)) :
    Ends (Γ.eval values (.var name)) good bad := by
  rw [eval]
  refine ht.bind fun _ _ => ?_
  cases hv : (Γ.index? name).bind (values[·]?) with
  | none => exact Ends.error (hnone hv)
  | some v => exact Ends.ok (h v hv)

theorem neg_ends (ht : Ends (Γ.typeOf (.neg x)) typed bad) (hx : Ends (Γ.eval values x) any bad)
    (h : ∀ (t : Ty) (v : Scalar), typed t → v.dtype = t.dtype → Ends v.neg good bad) :
    Ends (Γ.eval values (.neg x)) good bad := by
  rw [eval]
  exact ht.bind fun t htyped => (asType_ends t.dtype hx).bind fun v hv => h t v htyped hv

theorem not_ends (ht : Ends (Γ.typeOf (.not x)) typed bad) (hx : Ends (Γ.eval values x) any bad)
    (h : ∀ p, good (.bool p)) : Ends (Γ.eval values (.not x)) good bad := by
  rw [eval]
  exact ht.bind fun _ _ => (asTruth_ends hx).bind fun p _ => Ends.ok (h !p)

theorem arith_ends {op : ArithOp} (ht : Ends (Γ.typeOf (.arith op a b)) typed bad)
    (ha : Ends (Γ.eval values a) any bad) (hb : Ends (Γ.eval values b) any' bad)
    (h : ∀ (t : Ty) (v w : Scalar), typed t → v.dtype = t.dtype → w.dtype = t.dtype →
      Ends (v.binary op w) good bad) :
    Ends (Γ.eval values (.arith op a b)) good bad := by
  rw [eval]
  exact ht.bind fun t htyped => (asType_ends t.dtype ha).bind fun v hv =>
    (asType_ends t.dtype hb).bind fun w hw => h t v w htyped hv hw

theorem compare_ends {k : Binary.Comparison} {common : DType → Prop}
    (ht : Ends (Γ.commonType a b) common bad) (ha : Ends (Γ.eval values a) any bad)
    (hb : Ends (Γ.eval values b) any' bad)
    (h : ∀ (t : DType) (v w : Scalar), v.dtype = t → w.dtype = t →
      Ends (v.compare k w) (fun _ => True) bad)
    (hgood : ∀ p, good (.bool p)) : Ends (Γ.eval values (.compare k a b)) good bad := by
  rw [eval]
  exact ht.bind fun t _ => (asType_ends t ha).bind fun v hv => (asType_ends t hb).bind fun w hw =>
    (h t v w hv hw).bind fun p _ => Ends.ok (hgood p)

theorem and_ends (ht : Ends (Γ.typeOf (.and a b)) typed bad) (ha : Ends (Γ.eval values a) any bad)
    (hb : Ends (Γ.eval values b) any' bad) (h : ∀ p, good (.bool p)) :
    Ends (Γ.eval values (.and a b)) good bad := by
  rw [eval]
  refine ht.bind fun _ _ => (asTruth_ends ha).bind fun p _ => ?_
  cases p with
  | true => exact (asTruth_ends hb).bind fun q _ => Ends.ok (h q)
  | false => exact Ends.ok (h false)

theorem or_ends (ht : Ends (Γ.typeOf (.or a b)) typed bad) (ha : Ends (Γ.eval values a) any bad)
    (hb : Ends (Γ.eval values b) any' bad) (h : ∀ p, good (.bool p)) :
    Ends (Γ.eval values (.or a b)) good bad := by
  rw [eval]
  refine ht.bind fun _ _ => (asTruth_ends ha).bind fun p _ => ?_
  cases p with
  | true => exact Ends.ok (h true)
  | false => exact (asTruth_ends hb).bind fun q _ => Ends.ok (h q)

theorem cond_ends (ht : Ends (Γ.typeOf (.cond c a b)) typed bad)
    (hc : Ends (Γ.eval values c) any bad) (ha : Ends (Γ.eval values a) any' bad)
    (hb : Ends (Γ.eval values b) any'' bad)
    (h : ∀ (t : Ty) (v : Scalar), typed t → v.dtype = t.dtype → good v) :
    Ends (Γ.eval values (.cond c a b)) good bad := by
  rw [eval]
  refine ht.bind fun t htyped => (asTruth_ends hc).bind fun p _ => ?_
  cases p with
  | true => exact (asType_ends t.dtype ha).mono (fun v => h t v htyped) fun _ => id
  | false => exact (asType_ends t.dtype hb).mono (fun v => h t v htyped) fun _ => id

theorem call_ends {name : String} {args : List Expr} {known : HostFn → Prop}
    (ht : Ends (Γ.typeOf (.call name args)) typed bad)
    (hhost : Ends (Γ.host name args.length) known bad)
    (hargs : ∀ a ∈ args, Ends (Γ.eval values a) any bad)
    (h : ∀ f vs, known f → Γ.evalAll values f.argType? args = .ok vs → vs.length = args.length →
      Ends (callHost f vs) good bad) :
    Ends (Γ.eval values (.call name args)) good bad := by
  rw [eval]
  refine ht.bind fun _ _ => hhost.bind fun f hf => ?_
  have hvs := evalAll_ends f.argType? hargs
  cases hr : Γ.evalAll values f.argType? args with
  | error err => exact hvs.of_error hr
  | ok vs => exact h f vs hf hr (hvs.of_ok hr)

end

end Pointwise.Scope

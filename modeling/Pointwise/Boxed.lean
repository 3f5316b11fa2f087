import Pointwise.Typing

/-!
# Boxed evaluation

Expressions are evaluated on scalars, each part in the element type that it was given when the body
was checked. Every conversion is `Scalar.cast`.
-/

namespace Pointwise

def Expr.literal? : Expr → Option Scalar
  | .int n => some (.int64 n)
  | .float p => some (.float64 p)
  | .bool b => some (.bool b)
  | _ => none

namespace Scope

variable (Γ : Scope)

/-- An expression's result in another type. A literal is converted from what is written. -/
def asType (e : Expr) (t : DType) (result : Except Error Scalar) : Except Error Scalar :=
  match e.literal? with
  | some s => .ok (s.cast t)
  | none => result.map (·.cast t)

/-- Whether an expression's result counts as true. -/
def asTruth (e : Expr) (result : Except Error Scalar) : Except Error Bool := do
  let s ← asType e .bool result
  .ok s.isTruthy

/-- Calls a host function with scalars, which a native one takes as doubles. -/
def callHost (f : HostFn) (args : List Scalar) : Except Error Scalar :=
  match f with
  | .native f => do
    let y ← f.call (args.map Scalar.toDouble)
    .ok (.float64 y)
  | .boxed _ ret f => do
    let y ← f args
    .ok (y.cast ret)

mutual

def eval (values : List Scalar) : Expr → Except Error Scalar
  | .int n => do
    let t ← Γ.typeOf (.int n)
    .ok ((Scalar.int64 n).cast t.dtype)
  | .float p => do
    let t ← Γ.typeOf (.float p)
    .ok ((Scalar.float64 p).cast t.dtype)
  | .bool b => do
    let t ← Γ.typeOf (.bool b)
    .ok ((Scalar.bool b).cast t.dtype)
  | .var x => do
    let _ ← Γ.typeOf (.var x)
    ((Γ.index? x).bind (values[·]?)).elim (.error (.unknownIdent x)) .ok
  | .neg x => do
    let t ← Γ.typeOf (.neg x)
    let v ← asType x t.dtype (eval values x)
    v.neg
  | .not x => do
    let _ ← Γ.typeOf (.not x)
    let b ← asTruth x (eval values x)
    .ok (.bool !b)
  | .arith op a b => do
    let t ← Γ.typeOf (.arith op a b)
    let v ← asType a t.dtype (eval values a)
    let w ← asType b t.dtype (eval values b)
    v.binary op w
  | .compare c a b => do
    let t ← Γ.commonType a b
    let v ← asType a t (eval values a)
    let w ← asType b t (eval values b)
    let r ← v.compare c w
    .ok (.bool r)
  | .and a b => do
    let _ ← Γ.typeOf (.and a b)
    if ← asTruth a (eval values a) then
      let r ← asTruth b (eval values b)
      .ok (.bool r)
    else .ok (.bool false)
  | .or a b => do
    let _ ← Γ.typeOf (.or a b)
    if ← asTruth a (eval values a) then .ok (.bool true)
    else
      let r ← asTruth b (eval values b)
      .ok (.bool r)
  | .cond c a b => do
    let t ← Γ.typeOf (.cond c a b)
    if ← asTruth c (eval values c) then asType a t.dtype (eval values a)
    else asType b t.dtype (eval values b)
  | .call name args => do
    let _ ← Γ.typeOf (.call name args)
    let f ← Γ.host name args.length
    let vs ← evalAll values f.argType? args
    callHost f vs

/-- The values of several expressions, converted to a type if one is given. -/
def evalAll (values : List Scalar) (t? : Option DType) : List Expr → Except Error (List Scalar)
  | [] => .ok []
  | e :: es => do
    let v ← match t? with
      | some t => asType e t (eval values e)
      | none => eval values e
    let vs ← evalAll values t? es
    .ok (v :: vs)

end

theorem eval_literal {values : List Scalar} {e : Expr} {s : Scalar} {t : Ty}
    (hs : e.literal? = some s) (ht : Γ.typeOf e = .ok t) :
    Γ.eval values e = .ok (s.cast t.dtype) := by
  cases e with
  | int n | float p | bool b =>
    cases hs
    rw [eval, ht]
    rfl
  | _ => cases hs

def evalAs (values : List Scalar) (e : Expr) (t : DType) : Except Error Scalar :=
  asType e t (Γ.eval values e)

end Scope

end Pointwise

import Pointwise.Scalar.Arith

/-!
# Where scalar operations are defined

Two elements of one type always have a result of that type, as long as the operation is defined on
the type at all.
-/

namespace Pointwise

theorem DType.kind_eq_bool {t : DType} : t.kind = .bool ↔ t = .bool := by
  cases t <;> decide

/-- The element types on which an operation is defined. -/
def ArithOp.Allows (op : ArithOp) (t : DType) : Prop :=
  match op with
  | .add | .sub | .mul => t ≠ .bool
  | .div => t.isFloat = true
  | .max | .min => True

namespace Scalar

variable {op : ArithOp} {t : DType}

@[simp] theorem dtype_onFloat (x y : BitVec t.width) : (onFloat op t x y).dtype = t :=
  dtype_cast ..

theorem onBool_eq_ok (x y : BitVec t.width) (ht : t = .bool) (h : op.Allows t) :
    ∃ v, onBool op t x y = .ok v ∧ v.dtype = t := by
  subst ht
  cases op with
  | add | sub | mul => exact absurd rfl h
  | div => exact absurd (show false = true from h) Bool.false_ne_true
  | max | min => exact ⟨_, rfl, rfl⟩

theorem onInt_eq_ok (x y : BitVec t.width) (ht : t.isFloat = false) (h : op.Allows t) :
    ∃ v, onInt op t x y = .ok v ∧ v.dtype = t := by
  cases op with
  | div => exact absurd h (by simp [ArithOp.Allows, ht])
  | add | sub | mul | max | min => exact ⟨_, rfl, rfl⟩

theorem binary_eq_ok {a b : Scalar} (hab : a.dtype = b.dtype) (h : op.Allows a.dtype) :
    ∃ v, a.binary op b = .ok v ∧ v.dtype = a.dtype := by
  rw [binary, if_pos hab]
  cases hk : a.dtype.kind with
  | bool => exact onBool_eq_ok _ _ (DType.kind_eq_bool.1 hk) h
  | float => exact ⟨_, rfl, dtype_onFloat _ _⟩
  | signed | unsigned => exact onInt_eq_ok _ _ (by simp [DType.isFloat, hk]) h

theorem compare_eq_ok {a b : Scalar} (c : Binary.Comparison) (hab : a.dtype = b.dtype) :
    ∃ r, a.compare c b = .ok r :=
  ⟨_, by rw [compare, if_pos hab]⟩

theorem neg_eq_ok {a : Scalar} (h : a.dtype ≠ .bool) : ∃ v, a.neg = .ok v ∧ v.dtype = a.dtype := by
  unfold neg
  cases hk : a.dtype.kind with
  | bool => exact absurd (DType.kind_eq_bool.1 hk) h
  | float | signed | unsigned => exact ⟨_, rfl, rfl⟩

end Scalar

end Pointwise

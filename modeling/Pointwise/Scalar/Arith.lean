import Pointwise.Error
import Pointwise.Scalar

/-!
# Arithmetic on scalars

Operations on two elements of one type. Integers wrap. Single-precision numbers are computed in
double precision and then rounded.
-/

namespace Pointwise

inductive ArithOp where
  | add | sub | mul | div | max | min
deriving DecidableEq, Repr

namespace Scalar

open Binary (Comparison double)

def onDouble (op : ArithOp) (x y : BitVec 64) : BitVec 64 :=
  match op with
  | .add => double.add x y
  | .sub => double.sub x y
  | .mul => double.mul x y
  | .div => double.div x y
  | .max => double.pickGreater x y
  | .min => double.pickSmaller x y

/-- An operation on two elements of a floating-point type. -/
def onFloat (op : ArithOp) (t : DType) (x y : BitVec t.width) : Scalar :=
  let wide (z : BitVec t.width) : BitVec 64 := (Scalar.cast ⟨t, z⟩ .float64).bitsAs .float64
  (float64 (onDouble op (wide x) (wide y))).cast t

/-- An operation on two elements of an integer type. A quotient of integers is not an integer. -/
def onInt (op : ArithOp) (t : DType) (x y : BitVec t.width) : Except Error Scalar :=
  match op with
  | .add => .ok ⟨t, x + y⟩
  | .sub => .ok ⟨t, x - y⟩
  | .mul => .ok ⟨t, x * y⟩
  | .div => .error (.typing .integerDivision)
  | .max => .ok ⟨t, if t.toInt x ≤ t.toInt y then y else x⟩
  | .min => .ok ⟨t, if t.toInt y < t.toInt x then y else x⟩

/-- Truth values have a maximum and a minimum, and no sums or products. -/
def onBool (op : ArithOp) (t : DType) (x y : BitVec t.width) : Except Error Scalar :=
  match op with
  | .max => .ok ⟨t, x ||| y⟩
  | .min => .ok ⟨t, x &&& y⟩
  | _ => .error (.typing .boolArithmetic)

/-- An operation on two elements of one type. -/
def binary (op : ArithOp) (a b : Scalar) : Except Error Scalar :=
  if a.dtype = b.dtype then
    let y := b.bitsAs a.dtype
    match a.dtype.kind with
    | .bool => onBool op a.dtype a.bits y
    | .float => .ok (onFloat op a.dtype a.bits y)
    | .signed | .unsigned => onInt op a.dtype a.bits y
  else .error (.typing (.mismatch a.dtype b.dtype))

/-- The order of two elements of one type, if they have one. -/
def order? (t : DType) (x y : BitVec t.width) : Option Ordering :=
  match t.kind with
  | .float => (t.format.value x).order? (t.format.value y)
  | _ => some (compare (t.toInt x) (t.toInt y))

/-- Whether a comparison holds between two elements of one type. -/
def compare (c : Comparison) (a b : Scalar) : Except Error Bool :=
  if a.dtype = b.dtype then .ok (c.holds (order? a.dtype a.bits (b.bitsAs a.dtype)))
  else .error (.typing (.incomparable a.dtype b.dtype))

/-- The negated number. Integers wrap, and truth values are not numbers here. -/
def neg (a : Scalar) : Except Error Scalar :=
  match a.dtype.kind with
  | .bool => .error (.typing .negatedBool)
  | .float => .ok ⟨a.dtype, a.dtype.format.neg a.bits⟩
  | .signed | .unsigned => .ok ⟨a.dtype, -a.bits⟩

/-- Equality of the numbers, for which a value that is no number differs from itself. -/
def sameNumber (a b : Scalar) : Bool := (compare .eq a b).toOption.getD false

end Scalar

end Pointwise

import Pointwise.Scalar

/-!
# Untyped literals

Plain values that a caller passes without an element type.
-/

namespace Pointwise

inductive Literal where
  | bool (b : Bool)
  | int (n : Int)
  | float (pattern : BitVec 64)
deriving DecidableEq, Repr

namespace Literal

/-- The type of an array made of the value. Every integer is a 64-bit one. -/
def arrayType : Literal → DType
  | bool _ => .bool
  | int _ => .int64
  | float _ => .float64

/-- The smallest type for the value among those that literals take: 32-bit integers come first. -/
def literalType : Literal → DType
  | bool _ => .bool
  | int n => if -2 ^ (31 : Nat) ≤ n ∧ n < 2 ^ (31 : Nat) then .int32 else .int64
  | float _ => .float64

def toScalar : Literal → Scalar
  | bool b => .bool b
  | int n => .int64 n
  | float pattern => .float64 pattern

theorem dtype_toScalar (l : Literal) : l.toScalar.dtype = l.arrayType := by cases l <;> rfl

end Literal

end Pointwise

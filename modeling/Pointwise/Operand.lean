import Pointwise.NDArray
import Pointwise.Scalar.Literal

/-!
# Operands

What a function is called with.
-/

namespace Pointwise

inductive Operand where
  | array (a : NDArray)
  | scalar (s : Scalar)
  | literal (l : Literal)
deriving DecidableEq, Repr

namespace Operand

/-- The element type that selects a loop. -/
def dtype : Operand → DType
  | array a => a.dtype
  | scalar s => s.dtype
  | literal l => l.arrayType

def type : Operand → OperandType
  | array a => a.operandType
  | scalar s => .scalar s.dtype
  | literal l => .scalar l.arrayType

def shape : Operand → List Nat
  | array a => a.shape
  | _ => []

/-- The only value of an operand of rank 0. -/
def value : Operand → Scalar
  | array a => a.element []
  | scalar s => s
  | literal l => l.toScalar

end Operand

end Pointwise

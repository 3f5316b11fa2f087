import Pointwise.DType

/-!
# Types of operands

What is known of an operand before its elements are read.
-/

namespace Pointwise

/-- The order in which the elements of an array lie in memory. -/
inductive MemoryOrder where
  /-- Without gaps, the last coordinate running fastest. -/
  | rowMajor
  /-- Without gaps, the first coordinate running fastest. -/
  | columnMajor
  | irregular
deriving DecidableEq, Repr

def MemoryOrder.letter : MemoryOrder → String
  | rowMajor => "C"
  | columnMajor => "F"
  | irregular => "A"

/-- The type of an operand: one element, or an array of a rank and memory order. -/
inductive OperandType where
  | scalar (dtype : DType)
  | array (dtype : DType) (rank : Nat) (order : MemoryOrder)
deriving DecidableEq, Repr

namespace OperandType

def dtype : OperandType → DType
  | scalar t | array t .. => t

def rank : OperandType → Nat
  | scalar _ => 0
  | array _ n _ => n

def isArray : OperandType → Bool
  | scalar _ => false
  | array .. => true

def order? : OperandType → Option MemoryOrder
  | scalar _ => none
  | array _ _ o => some o

def text : OperandType → String
  | scalar t => t.name
  | array t n o => "array(" ++ t.name ++ ", " ++ toString n ++ "d, " ++ o.letter ++ ")"

end OperandType

end Pointwise

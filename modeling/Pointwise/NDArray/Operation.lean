import Pointwise.NDArray.View
import Pointwise.Reduction

/-!
# Operations on arrays

What can be done to an array that is kept in one place, one operation after the other.
-/

namespace Pointwise

inductive ArrayOperation where
  | permuteAxes (axes : List Nat)
  | transpose
  | astype (t : DType)
  | set (index : List Nat) (value : Scalar)

/-- The array that takes the place of the one before. -/
def NDArray.apply (a : NDArray) : ArrayOperation → Except Error NDArray
  | .permuteAxes axes => a.permuteAxes axes
  | .transpose => .ok a.transpose
  | .astype t => .ok (a.astype t)
  | .set index value => a.set index value

/-- Changes the array that is kept, unless the operation fails. -/
def performOn (op : ArrayOperation) : Stateful NDArray Unit := do
  set (← liftM ((← get).apply op))

end Pointwise

import Pointwise.NDArray

/-!
# Views and copies

Arrays with their axes in another order, over the same bytes, and copies in another type.
-/

namespace Pointwise.NDArray

variable (a : NDArray)

/-- Whether a list has each of `0, …, rank - 1` exactly once. -/
def isPermutation (rank : Nat) (axes : List Nat) : Bool :=
  axes.length == rank && axes.all (· < rank) && axes.eraseDups.length == axes.length

/-- The view whose axis `k` is the axis `axes[k]` of the array. -/
def permuteAxes (axes : List Nat) : Except Error NDArray :=
  if isPermutation a.rank axes then
    .ok { a with
      shape := axes.map (a.shape.getD · 0)
      strides := axes.map (a.strides.getD · 0) }
  else .error (.invalidOperand (.notAPermutation axes))

def transpose : NDArray :=
  { a with shape := a.shape.reverse, strides := a.strides.reverse }

/-- A row-major copy with the elements converted to another type. -/
def astype (t : DType) : NDArray :=
  (indices a.shape).foldl (fun out index => out.put index (a.element index)) (zeros t a.shape)

/-- The elements in row-major order, as values of another type. -/
def toScalarsAs (t : DType) : List Scalar := a.toScalars.map (·.valueAs t)

end Pointwise.NDArray

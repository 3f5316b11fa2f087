import Pointwise.NDArray.Word

/-!
# Offsets of results

Where the result for a coordinate lies when one axis is reduced away: the sum of the steps along the
other axes, each in elements and with its fraction cut off.
-/

namespace Pointwise

/-- Steps of a stride in bytes, in elements. -/
def elementSteps (itemsize i stride : Int) : Int := (i * stride).tdiv itemsize

/-- The steps along all axes that have both a coordinate and a stride. -/
def totalSteps (itemsize : Int) (strides index : List Int) : Int :=
  (List.zipWith (elementSteps itemsize) index strides).sum

/-- The offset for a coordinate, axis by axis. The strides are those of the result. -/
def flatOffset (strides : List Int) (itemsize : Int) (index : List Int) (axis : Nat) : Int :=
  ((index.zipIdx.filter fun (_, a) => a != axis).map fun (i, a) =>
    elementSteps itemsize i (strides.getD (if a < axis then a else a - 1) 0)).sum

/-- Where the reduced axis lies, which decides how an offset is computed. -/
inductive AxisPlace where
  | first
  | last
  | middle (axis : Nat)
deriving DecidableEq, Repr

namespace AxisPlace

/-- The place of an axis of an array with the given rank. -/
def of (rank axis : Nat) : AxisPlace :=
  if axis = 0 then first else if axis + 1 = rank then last else middle axis

/-- The offset for a coordinate, without a test at every axis. -/
def offset (place : AxisPlace) (itemsize : Int) (strides index : List Int) : Int :=
  match place with
  | first => totalSteps itemsize strides (index.drop 1)
  | last => totalSteps itemsize strides index.dropLast
  | middle axis =>
    totalSteps itemsize (strides.take axis) (index.take axis) +
      totalSteps itemsize (strides.drop axis) (index.drop (axis + 1))

end AxisPlace

/-! ## Coordinates in machine words -/

/-- The offset for a coordinate and an element size that are words. -/
def flatOffsetOfWords (strides : List Int) (itemsize : Nat) (index : List Nat) (axis : Nat) : Int :=
  flatOffset strides (signedWord itemsize) (index.map fun (i : Nat) => signedWord i) axis

/-- The offset for a coordinate and an element size that are words, without a test at every axis. -/
def AxisPlace.offsetOfWords (place : AxisPlace) (itemsize : Nat) (strides : List Int)
    (index : List Nat) : Int :=
  place.offset (signedWord itemsize) strides (index.map fun (i : Nat) => signedWord i)

end Pointwise

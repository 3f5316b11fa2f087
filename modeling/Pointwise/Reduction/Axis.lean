import Pointwise.Error

/-!
# Axes of a reduction
-/

namespace Pointwise

inductive Axis where
  | index (axis : Int)
  | several (axes : List Int)
  | all
  /-- Not given, which is enough for an array of rank 1. -/
  | unspecified
deriving DecidableEq, Repr

namespace Axis

def text : Axis → String
  | index a => toString a
  | several axes => bracketed axes
  | all => "all"
  | unspecified => "None"

def isSingle : Axis → Bool
  | index _ => true
  | several [_] => true
  | _ => false

/-- An axis of an array with the given rank. -/
def check (rank : Nat) (axis : Int) : Except Error Nat :=
  if axis < 0 ∨ (rank : Int) ≤ axis then .error (.invalidAxis (.outOfRange axis rank))
  else .ok axis.toNat

/-- Different axes of an array with the given rank, in the order in which they are named. -/
def checkAll (rank : Nat) (axes : List Int) : Except Error (List Nat) := do
  if axes.isEmpty then
    throw (.invalidAxis .noAxes)
  axes.foldlM (fun seen axis => do
    let a ← check rank axis
    if a ∈ seen then throw (.invalidAxis (.repeated axes))
    return seen ++ [a]) []

end Axis

end Pointwise

import Pointwise.Instances

/-!
# Coordinates

The coordinates of a shape in row-major order, counted through like the wheels of an odometer.
-/

namespace Pointwise

/-- Number of elements of a shape. -/
def size (shape : List Nat) : Nat := shape.foldr (· * ·) 1

/-- The coordinate after another one, or `none` after the last. The last axis runs fastest. -/
def nextIndex? : (shape index : List Nat) → Option (List Nat)
  | d :: ds, i :: is =>
    match nextIndex? ds is with
    | some js => some (i :: js)
    | none => if i + 1 < d then some ((i + 1) :: List.replicate is.length 0) else none
  | _, _ => none

/-- A walk through the coordinates of a shape. -/
structure Odometer where
  shape : List Nat
  index : List Nat
  started : Bool
  done : Bool
deriving DecidableEq, Repr

namespace Odometer

/-- Before the first coordinate. A shape with an empty axis has none. -/
def start (shape : List Nat) : Odometer :=
  ⟨shape, List.replicate shape.length 0, false, shape.any (· == 0)⟩

/-- The next coordinate, and the walk after it. -/
def next (o : Odometer) : Option (List Nat) × Odometer :=
  if o.done then (none, o)
  else if !o.started then (some o.index, { o with started := true })
  else
    match nextIndex? o.shape o.index with
    | some index => (some index, { o with index })
    | none => (none, { o with index := List.replicate o.shape.length 0, done := true })

/-- The coordinates of at most `n` steps, and the walk after them. -/
def take : (n : Nat) → Odometer → List (List Nat) × Odometer
  | 0, o => ([], o)
  | n + 1, o =>
    match o.next with
    | (none, o') => ([], o')
    | (some index, o') =>
      let more := take n o'
      (index :: more.1, more.2)

end Odometer

/-- All coordinates of a shape, the last axis running fastest. -/
def indices (shape : List Nat) : List (List Nat) :=
  ((Odometer.start shape).take (size shape)).1

end Pointwise

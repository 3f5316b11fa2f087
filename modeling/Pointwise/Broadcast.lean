import Pointwise.Operand

/-!
# Broadcasting

Shapes are aligned at their last axes, and an axis of length 1 is stretched to any other length.
-/

namespace Pointwise

namespace Broadcast

/-- The length of an axis that two operands share, if their lengths agree. -/
def join? (m n : Nat) : Option Nat :=
  if m = 1 then some n else if n = 1 ∨ n = m then some m else none

theorem join?_one_left (n : Nat) : join? 1 n = some n := by simp [join?]

/-- A shape with axes of length 1 in front, up to a rank. -/
def pad (rank : Nat) (shape : List Nat) : List Nat :=
  List.replicate (rank - shape.length) 1 ++ shape

/-- The common shape of two shapes of one rank. -/
def joinShapes? : List Nat → List Nat → Option (List Nat)
  | m :: ms, n :: ns => do
    let d ← join? m n
    let ds ← joinShapes? ms ns
    some (d :: ds)
  | ms, _ => some ms

/-- The common shape of several shapes. -/
def shapes (ss : List (List Nat)) : Except Error (List Nat) :=
  let rank := (ss.map List.length).foldl max 0
  match ss.foldlM (fun out s => joinShapes? out (pad rank s)) (List.replicate rank 1) with
  | some out => .ok out
  | none => .error (.broadcast (.shapes ss))

/-- The common shape of several operands. -/
def operands (inputs : List Operand) : Except Error (List Nat) := shapes (inputs.map Operand.shape)

/-- The coordinate of a smaller shape for a coordinate of the common one. -/
def sourceIndex (index shape : List Nat) : List Nat :=
  List.zipWith (fun d i => if d = 1 then 0 else i) shape (index.drop (index.length - shape.length))

/-- The value that an operand contributes at a coordinate of the common shape. -/
def valueAt (index : List Nat) : Operand → Scalar
  | .array a => a.element (sourceIndex index a.shape)
  | op => op.value

/--
Fills an array with the results of `f` on the inputs at each of its coordinates in row-major order.
-/
def fill (inputs : List Operand) (out : NDArray) (f : List Scalar → Except Error Scalar) :
    Except Error NDArray := do
  let shape ← operands inputs
  let common ← shapes [shape, out.shape]
  if common ≠ out.shape then
    throw (.broadcast (.output out.shape shape))
  (indices out.shape).foldlM
    (fun out index => do return out.put index (← f (inputs.map (valueAt index)))) out

end Broadcast

end Pointwise

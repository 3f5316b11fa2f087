import Pointwise.NDArray
import Pointwise.Reduction.Axis
import Pointwise.Reduction.FlatOffset

/-!
# Reductions

Folds of a function of two arguments along axes of an array, in row-major order of the coordinates.
The function may fail and may change a state, which is kept also when it fails.
-/

namespace Pointwise

/-- Computations that can fail and keep a state. -/
abbrev Stateful (σ : Type) := ExceptT Error (StateM σ)

structure ReduceOptions where
  axis : Axis
  /-- The type of the accumulator, which is the array's own if none is given. -/
  dtype : Option DType
  /-- Where a fold starts, which is the identity if none is given. -/
  initial : Option Scalar
deriving DecidableEq, Repr

inductive Reduced where
  | scalar (s : Scalar)
  | array (a : NDArray)
deriving DecidableEq, Repr

def removeAt {α : Type} (k : Nat) (l : List α) : List α := l.take k ++ l.drop (k + 1)

def insertAt {α : Type} (k : Nat) (x : α) (l : List α) : List α := l.take k ++ x :: l.drop k

theorem removeAt_insertAt {α : Type} {k : Nat} {l : List α} (x : α) (h : k ≤ l.length) :
    removeAt k (insertAt k x l) = l := by
  have hd : List.drop (k + 1) (List.take k l) = [] := by
    rw [List.drop_eq_nil_iff, List.length_take]; omega
  simp [removeAt, insertAt, List.drop_append, Nat.min_eq_left h, hd]

/-- A function to fold with. -/
structure Reducer (σ : Type) where
  name : String
  identity : Option Scalar
  fold : Scalar → Scalar → Stateful σ Scalar

namespace Reducer

variable {σ : Type} (r : Reducer σ)

/-- Where a fold starts, if that is no element of the array. -/
def seed? (initial : Option Scalar) (acc : DType) : Option Scalar :=
  (initial.or r.identity).map (·.cast acc)

/-- One step of a fold with an accumulator of a fixed type. -/
def step (acc : DType) (total x : Scalar) : Stateful σ Scalar := do
  return (← r.fold total x).cast acc

/-- Reduces an array of rank 1 to a scalar. -/
def reduceLine (a : NDArray) (acc : DType) (initial : Option Scalar) : Stateful σ Scalar := do
  let n := a.shape.headD 0
  let item (i : Nat) : Scalar := a.element [i]
  match r.seed? initial acc with
  | some s => ((List.range n).map item).foldlM (r.step acc) s
  | none =>
    if n = 0 then throw (.emptyReduction r.name)
    ((List.range' 1 (n - 1)).map item).foldlM (r.step acc) ((item 0).cast acc)

/-- Folds the elements at some coordinates into the result of an array, one after the other. -/
def sweep (a : NDArray) (axis : Nat) (coordinates : List (List Nat)) (out : NDArray) :
    Stateful σ NDArray :=
  let place := AxisPlace.of a.rank axis
  coordinates.foldlM (fun out index => do
    let steps := place.offset out.itemsize out.strides (index.map Int.ofNat)
    let offset := steps.toNat * out.itemsize
    let v ← r.fold (out.readAt offset) (a.element index)
    return out.writeAt offset v) out

/-- The first elements along an axis, as the start of a reduction. -/
def firstSlice (a : NDArray) (axis : Nat) (acc : DType) : NDArray :=
  let shape := removeAt axis a.shape
  (indices shape).foldl (fun out index => out.put index (a.element (insertAt axis 0 index)))
    (.zeros acc shape)

/-- Reduces an array of higher rank along one axis. -/
def reduceAxis (a : NDArray) (axis : Nat) (acc : DType) (initial : Option Scalar) :
    Stateful σ NDArray := do
  let shape := removeAt axis a.shape
  match r.seed? initial acc with
  | some s => r.sweep a axis (indices a.shape) (.full acc shape s)
  | none =>
    if size shape = 0 then return .zeros acc shape
    if a.shape.getD axis 0 = 0 then throw (.emptyReduction r.name)
    r.sweep a axis ((indices a.shape).filter (·.getD axis 0 != 0)) (firstSlice a axis acc)

/-- The axes other than the least, as they are counted once that one is gone. -/
def shiftAxes (least : Nat) (axes : List Nat) : List Nat :=
  (axes.filter (· != least)).map (· - 1)

theorem length_shiftAxes_lt {least : Nat} {axes : List Nat} (h : axes.min? = some least) :
    (shiftAxes least axes).length < axes.length := by
  have hm : least ∈ axes := List.min?_mem h
  rw [shiftAxes, List.length_map]
  exact List.length_filter_lt_length_iff_exists.2 ⟨least, hm, by simp⟩

/-- Reduces along several axes, the least one first. Only the first step uses `initial`. -/
def reduceAxes (a : NDArray) (axes : List Nat) (acc : DType) (initial : Option Scalar) :
    Stateful σ Reduced :=
  match _h : axes.min? with
  | none => throw (.invalidAxis .noAxes)
  | some least => do
    let out ← r.reduceAxis a least acc initial
    if axes.length = 1 then return .array out
    else if out.rank = 1 then return .scalar (← r.reduceLine out acc none)
    else reduceAxes out (shiftAxes least axes) acc none
termination_by axes.length
decreasing_by exact length_shiftAxes_lt _h

/-- Without an identity the order of the axes would matter, so only one can be reduced. -/
def checkReorderable (axis : Axis) : Except Error Unit :=
  if r.identity.isSome || axis.isSingle then .ok ()
  else .error (.invalidAxis (.notReorderable r.name))

def run (a : NDArray) (options : ReduceOptions) : Stateful σ Reduced := do
  if a.rank = 0 then throw (.invalidAxis (.rankZero r.name))
  liftM (r.checkReorderable options.axis)
  let acc := options.dtype.getD a.dtype
  if a.rank = 1 then
    match options.axis with
    | .index k => discard (liftM (Axis.check 1 k))
    | .several ks => discard (liftM (Axis.checkAll 1 ks))
    | .all | .unspecified => pure ()
    return .scalar (← r.reduceLine a acc options.initial)
  match options.axis with
  | .unspecified => throw (.invalidAxis .unspecified)
  | .index k =>
    let k ← liftM (Axis.check a.rank k)
    return .array (← r.reduceAxis a k acc options.initial)
  | .several ks =>
    let ks ← liftM (Axis.checkAll a.rank ks)
    r.reduceAxes a ks acc options.initial
  | .all => r.reduceAxes a (List.range a.rank) acc options.initial

end Reducer

end Pointwise

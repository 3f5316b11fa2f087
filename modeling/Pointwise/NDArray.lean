import Pointwise.Error
import Pointwise.NDArray.Coordinates
import Pointwise.NDArray.Word
import Pointwise.Scalar.Encoding

/-!
# Arrays

Elements of one type at the coordinates of a shape. They lie in a buffer of bytes, and strides say
how many bytes apart the elements along each axis are.
-/

namespace Pointwise

structure NDArray where
  dtype : DType
  shape : List Nat
  /-- Bytes from an element to the next one, for each axis. -/
  strides : List Int
  data : Array UInt8
deriving DecidableEq, Repr

/-- Number of elements, counting an empty axis as one of length 1. -/
def span (shape : List Nat) : Nat := shape.foldr (fun d n => max d 1 * n) 1

/-- Strides without gaps, the last axis running fastest. -/
def rowMajorStrides (itemsize : Nat) : List Nat → List Int
  | [] => []
  | _ :: ds => (itemsize * span ds : Nat) :: rowMajorStrides itemsize ds

/-- Strides without gaps, the first axis running fastest. -/
def columnMajorStrides (itemsize : Nat) (shape : List Nat) : List Int :=
  (rowMajorStrides itemsize shape.reverse).reverse

def readBytes (data : Array UInt8) (offset count : Nat) : List UInt8 :=
  (data.extract offset (offset + count)).toList

def writeBytes (data : Array UInt8) (offset : Nat) : List UInt8 → Array UInt8
  | [] => data
  | b :: bs => writeBytes (data.setIfInBounds offset b) (offset + 1) bs

@[simp] theorem length_rowMajorStrides (itemsize : Nat) (shape : List Nat) :
    (rowMajorStrides itemsize shape).length = shape.length := by
  induction shape with
  | nil => rfl
  | cons d ds ih => simp [rowMajorStrides, ih]

@[simp] theorem size_writeBytes (data : Array UInt8) (offset : Nat) (bytes : List UInt8) :
    (writeBytes data offset bytes).size = data.size := by
  induction bytes generalizing data offset with
  | nil => rfl
  | cons b bs ih => simp [writeBytes, ih]

namespace NDArray

/-! ## Construction -/

def rowMajor (t : DType) (shape : List Nat) (bytes : List UInt8) : NDArray :=
  ⟨t, shape, rowMajorStrides t.itemsize shape, bytes.toArray⟩

def zeros (t : DType) (shape : List Nat) : NDArray :=
  rowMajor t shape (List.replicate (size shape * t.itemsize) 0)

def full (t : DType) (shape : List Nat) (value : Scalar) : NDArray :=
  rowMajor t shape (List.replicate (size shape) (value.cast t).toBytes).flatten

/-- An array of the given values in row-major order, converted to its type. -/
def ofScalars (t : DType) (shape : List Nat) (values : List Scalar) : Except Error NDArray :=
  if size shape ≠ values.length then
    .error (.invalidOperand (.elementCount shape values.length))
  else .ok (rowMajor t shape (values.flatMap fun v => (v.cast t).toBytes))

variable (a : NDArray)

def rank : Nat := a.shape.length

def itemsize : Nat := a.dtype.itemsize

def isEmpty : Bool := size a.shape == 0

/-- The strides in machine words, in which they are compared and shown. -/
def strideWords : List Int := a.strides.map signedWord

/-- The order of the elements in memory. An array that is both is called row-major. -/
def order : MemoryOrder :=
  if a.strideWords = (rowMajorStrides a.itemsize a.shape).map signedWord then .rowMajor
  else if a.strideWords = (columnMajorStrides a.itemsize a.shape).map signedWord then .columnMajor
  else .irregular

def operandType : OperandType := .array a.dtype a.rank a.order

/-! ## Elements -/

/-- Where the element at a coordinate starts. -/
def byteOffset (index : List Nat) : Nat :=
  (List.zipWith (fun (i : Nat) (s : Int) => i * s) index a.strides).sum.toNat

/-- Whether a coordinate belongs to a shape. -/
def inBounds (shape index : List Nat) : Bool :=
  index.length == shape.length && (index.zip shape).all fun (i, d) => i < d

/-- The element that starts at a byte. -/
def readAt (offset : Nat) : Scalar := .ofBytes a.dtype (readBytes a.data offset a.itemsize)

/-- The array with the element at a byte replaced by a value converted to its type. -/
def writeAt (offset : Nat) (value : Scalar) : NDArray :=
  { a with data := writeBytes a.data offset (value.cast a.dtype).toBytes }

/-- The element at a coordinate that belongs to the shape. -/
def element (index : List Nat) : Scalar := a.readAt (a.byteOffset index)

/-- The array with another element at a coordinate that belongs to the shape. -/
def put (index : List Nat) (value : Scalar) : NDArray := a.writeAt (a.byteOffset index) value

def get (index : List Nat) : Except Error Scalar :=
  if inBounds a.shape index then .ok (a.element index)
  else .error (.invalidOperand (.outOfBounds index a.shape))

/-- The array with another element, converted to the array's type. -/
def set (index : List Nat) (value : Scalar) : Except Error NDArray :=
  if inBounds a.shape index then .ok (a.put index value)
  else .error (.invalidOperand (.outOfBounds index a.shape))

def toScalars : List Scalar := (indices a.shape).map a.element

end NDArray

end Pointwise

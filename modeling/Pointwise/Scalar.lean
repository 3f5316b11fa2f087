import Pointwise.Binary.Arith
import Pointwise.Decimal.Layout
import Pointwise.DType

/-!
# Scalars

One typed element: an element type and the bits of a value of it. Signed integers are in two's
complement, floating-point numbers are patterns of their format.
-/

namespace Pointwise

structure Scalar where
  dtype : DType
  bits : BitVec dtype.width
deriving DecidableEq, Repr

namespace DType

/-- The integer that the bits of a truth value or an integer stand for. -/
def toInt (t : DType) (x : BitVec t.width) : Int := if t.isSigned then x.toInt else x.toNat

def least (t : DType) : Int := if t.isSigned then -(2 ^ (t.width - 1) : Nat) else 0

def greatest (t : DType) : Int :=
  if t.isSigned then (2 ^ (t.width - 1) : Nat) - 1 else (2 ^ t.width : Nat) - 1

end DType

namespace Scalar

def bool (b : Bool) : Scalar := ⟨.bool, BitVec.ofBool b⟩
def int64 (n : Int) : Scalar := ⟨.int64, BitVec.ofInt 64 n⟩
def float64 (pattern : BitVec 64) : Scalar := ⟨.float64, pattern⟩

/-- The integer that a truth value or an integer stands for. -/
def toInt (s : Scalar) : Int := s.dtype.toInt s.bits

/-- The exact value of a floating-point number. -/
def toValue (s : Scalar) : Binary.Value := s.dtype.format.value s.bits

/-! ## Conversion -/

/-- An integer as an element: nonzero is true, integers wrap, floating-point numbers round. -/
def ofInt (n : Int) (t : DType) : Scalar :=
  match t.kind with
  | .bool => ⟨t, BitVec.ofNat _ (if n = 0 then 0 else 1)⟩
  | .float => ⟨t, t.format.ofInt _ n⟩
  | .signed | .unsigned => ⟨t, BitVec.ofInt _ n⟩

/--
An exact value as an element. All but the zeros is true. An integer is the whole part, kept within
the range of the type, and 0 for what is no number. Floating-point numbers round.
-/
def ofValue (v : Binary.Value) (t : DType) : Scalar :=
  match t.kind with
  | .bool => ⟨t, BitVec.ofNat _ (if v = .finite false 0 ∨ v = .finite true 0 then 0 else 1)⟩
  | .float => ⟨t, t.format.pattern _ v⟩
  | .signed | .unsigned => ⟨t, BitVec.ofInt _ (v.truncateWithin t.least t.greatest)⟩

/-- The element converted to another type. Its own type leaves every bit as it is. -/
def cast (s : Scalar) (t : DType) : Scalar :=
  if s.dtype = t then s
  else if s.dtype.isFloat then ofValue s.toValue t
  else ofInt s.toInt t

def zero (t : DType) : Scalar := (int64 0).cast t

def isTruthy (s : Scalar) : Bool := (s.cast .bool).bits != 0

/--
The element as a value of a type on its own. A truth value asks for the conversion to one, and all
else takes what the bits stand for. Only a floating-point number of the same type is left as it is.
-/
def valueAs (s : Scalar) (t : DType) : Scalar :=
  if t = .bool then bool s.isTruthy
  else if s.dtype.isFloat then if s.dtype = t then s else ofValue s.toValue t
  else ofInt s.toInt t

/-- The bits of an element at the width of a type, which is meant to be its own. -/
def bitsAs (s : Scalar) (t : DType) : BitVec t.width := s.bits.setWidth _

def toDouble (s : Scalar) : BitVec 64 := (s.cast .float64).bitsAs .float64

/-! ## Text -/

/-- Integers in decimal, floating-point numbers in the given layout. -/
def textIn (layout : Decimal.Layout) (s : Scalar) : String :=
  match s.dtype.kind with
  | .bool => if s.bits = 0 then "false" else "true"
  | .float => s.dtype.format.render layout s.bits.toNat
  | .signed | .unsigned => toString s.toInt

/-- The value alone. A whole floating-point number has no point. -/
def text (s : Scalar) : String := s.textIn .plain

/-- The name of the constructor of a type's elements. -/
def constructorName : DType → String
  | .bool => "Bool"
  | .int8 => "Int8"
  | .uint8 => "UInt8"
  | .int16 => "Int16"
  | .uint16 => "UInt16"
  | .int32 => "Int32"
  | .uint32 => "UInt32"
  | .int64 => "Int64"
  | .uint64 => "UInt64"
  | .float32 => "Float32"
  | .float64 => "Float64"

/-- The value with its type, as in `Int32(0)`. -/
def describe (s : Scalar) : String :=
  constructorName s.dtype ++ "(" ++ s.textIn .marked ++ ")"

@[simp] theorem bitsAs_self (s : Scalar) : s.bitsAs s.dtype = s.bits := by simp [bitsAs]

@[simp] theorem cast_self (s : Scalar) : s.cast s.dtype = s := by simp [cast]

theorem cast_of_dtype {s : Scalar} {t : DType} (h : s.dtype = t) : s.cast t = s := by
  rw [← h, cast_self]

@[simp] theorem dtype_ofInt (n : Int) (t : DType) : (ofInt n t).dtype = t := by
  unfold ofInt; split <;> rfl

@[simp] theorem dtype_ofValue (v : Binary.Value) (t : DType) : (ofValue v t).dtype = t := by
  unfold ofValue; split <;> rfl

@[simp] theorem dtype_cast (s : Scalar) (t : DType) : (s.cast t).dtype = t := by
  unfold cast; split
  · assumption
  · split <;> simp

@[simp] theorem cast_cast (s : Scalar) (t : DType) : (s.cast t).cast t = s.cast t := by
  have hself := (s.cast t).cast_self
  rwa [dtype_cast] at hself

end Scalar

end Pointwise

import Pointwise.Binary.Format

/-!
# Element types

The types of array elements, their safe conversions and their promotion. They are listed from the
least to the most promoted.
-/

namespace Pointwise

inductive DType where
  | bool | int8 | uint8 | int16 | uint16 | int32 | uint32 | int64 | uint64 | float32 | float64
deriving DecidableEq, Repr, Inhabited

/-- How the bits of an element are read. -/
inductive Kind where
  | bool | signed | unsigned | float
deriving DecidableEq, Repr

namespace DType

/-- Every element type, the least promoted first. -/
def all : List DType :=
  [.bool, .int8, .uint8, .int16, .uint16, .int32, .uint32, .int64, .uint64, .float32, .float64]

def kind : DType → Kind
  | bool => .bool
  | int8 | int16 | int32 | int64 => .signed
  | uint8 | uint16 | uint32 | uint64 => .unsigned
  | float32 | float64 => .float

/-- Bytes of an element in an array. -/
def itemsize : DType → Nat
  | bool | int8 | uint8 => 1
  | int16 | uint16 => 2
  | int32 | uint32 | float32 => 4
  | int64 | uint64 | float64 => 8

/-- Bits of an element in an array. -/
def bits (t : DType) : Nat := 8 * t.itemsize

/-- Bits that an element can choose freely. A truth value is one bit in a byte of its own. -/
def width : DType → Nat
  | bool => 1
  | int8 | uint8 => 8
  | int16 | uint16 => 16
  | int32 | uint32 | float32 => 32
  | int64 | uint64 | float64 => 64

def isBool (t : DType) : Bool := t.kind == .bool
def isSigned (t : DType) : Bool := t.kind == .signed
def isUnsigned (t : DType) : Bool := t.kind == .unsigned
def isFloat (t : DType) : Bool := t.kind == .float
def isInteger (t : DType) : Bool := t.isSigned || t.isUnsigned

/-- The format in which the numbers of a type are rounded: double, unless the type is single. -/
def format : DType → Binary.Format
  | float32 => Binary.single
  | _ => Binary.double

/-- The place in the promotion order. -/
def order : DType → Nat
  | bool => 0
  | int8 => 1
  | uint8 => 2
  | int16 => 3
  | uint16 => 4
  | int32 => 5
  | uint32 => 6
  | int64 => 7
  | uint64 => 8
  | float32 => 9
  | float64 => 10

/-! ## Conversion -/

/-- Whether every element of the first type is one of the second without loss of information. -/
def castsSafely (s t : DType) : Bool :=
  s == t ||
    match s.kind, t.kind with
    | .bool, _ => true
    | _, .bool => false
    | .signed, .signed | .unsigned, .unsigned => s.bits ≤ t.bits
    | .unsigned, .signed => s.bits < t.bits
    | .signed, .unsigned => false
    | .signed, .float | .unsigned, .float => t == .float64 || s.bits ≤ 16
    | .float, .float => s.bits ≤ t.bits
    | .float, _ => false

/-- The least promoted type that both types convert to safely. -/
def promote (s t : DType) : DType :=
  (all.find? fun u => s.castsSafely u && t.castsSafely u).getD .float64

/-! ## Names -/

def name : DType → String
  | bool => "bool"
  | int8 => "int8"
  | uint8 => "uint8"
  | int16 => "int16"
  | uint16 => "uint16"
  | int32 => "int32"
  | uint32 => "uint32"
  | int64 => "int64"
  | uint64 => "uint64"
  | float32 => "float32"
  | float64 => "float64"

/-- The letter of a type in a loop string. -/
def letter : DType → Char
  | bool => '?'
  | int8 => 'b'
  | uint8 => 'B'
  | int16 => 'h'
  | uint16 => 'H'
  | int32 => 'i'
  | uint32 => 'I'
  | int64 => 'l'
  | uint64 => 'L'
  | float32 => 'f'
  | float64 => 'd'

/-- The type of a letter. The 64-bit integers have a second one. -/
def ofLetter? : Char → Option DType
  | '?' => some bool
  | 'b' => some int8
  | 'B' => some uint8
  | 'h' => some int16
  | 'H' => some uint16
  | 'i' => some int32
  | 'I' => some uint32
  | 'l' | 'q' => some int64
  | 'L' | 'Q' => some uint64
  | 'f' => some float32
  | 'd' => some float64
  | _ => none

/-- The type of a name of more than one letter. -/
def ofName? : String → Option DType
  | "bool" | "b1" | "boolean" => some bool
  | "int8" | "i1" => some int8
  | "uint8" | "u1" => some uint8
  | "int16" | "i2" => some int16
  | "uint16" | "u2" => some uint16
  | "int32" | "i4" => some int32
  | "uint32" | "u4" => some uint32
  | "int64" | "i8" | "intp" => some int64
  | "uint64" | "u8" | "uintp" => some uint64
  | "float32" | "f4" => some float32
  | "float64" | "f8" | "double" => some float64
  | _ => none

theorem ofLetter?_letter (t : DType) : ofLetter? t.letter = some t := by cases t <;> rfl

theorem ofName?_name (t : DType) : ofName? t.name = some t := by cases t <;> decide

theorem width_le_bits (t : DType) : t.width ≤ t.bits := by cases t <;> decide

theorem order_injective {s t : DType} (h : s.order = t.order) : s = t := by
  cases s <;> cases t <;> first | rfl | simp [order] at h

end DType

end Pointwise

import Pointwise.Scalar

/-!
# Encodings of scalars

An element in a 64-bit word and as the bytes of an array, the least significant first.
-/

namespace Pointwise.Scalar

/-- The bits of an element, filled up with zeros. -/
def toWord (s : Scalar) : BitVec 64 := s.bits.setWidth 64

/-- The element in the low bits of a word. A truth value is the lowest byte being nonzero. -/
def ofWord (t : DType) (w : BitVec 64) : Scalar :=
  match t.kind with
  | .bool => ⟨t, BitVec.ofNat _ (if w.setWidth 8 = 0 then 0 else 1)⟩
  | _ => ⟨t, w.setWidth _⟩

/-- The number of a list of bytes, the least significant first. -/
def ofLittleEndian (bytes : List UInt8) : Nat := bytes.foldr (fun b n => b.toNat + 256 * n) 0

/-- The `k` lowest bytes of a number, the least significant first. -/
def littleEndian : (k : Nat) → (n : Nat) → List UInt8
  | 0, _ => []
  | k + 1, n => UInt8.ofNat n :: littleEndian k (n / 256)

/-- The bytes that an element takes in an array. -/
def toBytes (s : Scalar) : List UInt8 := littleEndian s.dtype.itemsize s.bits.toNat

/-- The element in the bytes of an array. A truth value is the first byte being nonzero. -/
def ofBytes (t : DType) (bytes : List UInt8) : Scalar :=
  match t.kind with
  | .bool => ⟨t, BitVec.ofNat _ (if bytes.headD 0 = 0 then 0 else 1)⟩
  | _ => ⟨t, BitVec.ofNat _ (ofLittleEndian bytes)⟩

@[simp] theorem length_littleEndian (k n : Nat) : (littleEndian k n).length = k := by
  induction k generalizing n with
  | zero => rfl
  | succ k ih => simp [littleEndian, ih]

@[simp] theorem length_toBytes (s : Scalar) : s.toBytes.length = s.dtype.itemsize := by
  simp [toBytes]

@[simp] theorem dtype_ofBytes (t : DType) (bytes : List UInt8) : (ofBytes t bytes).dtype = t := by
  unfold ofBytes; split <;> rfl

end Pointwise.Scalar

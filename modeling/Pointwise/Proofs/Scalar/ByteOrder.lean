import Pointwise.Proofs.Scalar.Encoding

/-!
# Encodings in the order of a machine

An element is read back from its word and from its bytes, whichever order a machine keeps bytes in.
Where the least significant byte comes first, the bytes of an element at the start of an empty slot
make its word.
-/

namespace Pointwise

/-- Which byte of a number a machine keeps first. -/
inductive ByteOrder where
  | leastFirst | mostFirst
deriving DecidableEq, Repr

/-- Bytes with the least significant first in the order of a machine, and back. -/
def ByteOrder.arrange : ByteOrder → List UInt8 → List UInt8
  | .leastFirst, bytes => bytes
  | .mostFirst, bytes => bytes.reverse

namespace ByteOrder

variable (order : ByteOrder) (bytes : List UInt8)

@[simp] theorem arrange_leastFirst : leastFirst.arrange bytes = bytes := rfl

@[simp] theorem length_arrange : (order.arrange bytes).length = bytes.length := by
  cases order <;> simp [arrange]

@[simp] theorem arrange_arrange : order.arrange (order.arrange bytes) = bytes := by
  cases order <;> simp [arrange]

end ByteOrder

theorem DType.width_eq_bits {t : DType} (h : t ≠ .bool) : t.width = t.bits := by
  cases t with
  | bool => exact absurd rfl h
  | _ => rfl

namespace Scalar

variable {t : DType} {w w' : BitVec 64}

/-! ## Words -/

theorem ofWord_of_ne_bool (h : t ≠ .bool) (w : BitVec 64) :
    ofWord t w = ⟨t, w.setWidth t.width⟩ := by
  have hk : t.kind ≠ .bool := fun hk => h (DType.kind_eq_bool.1 hk)
  simp [ofWord]

theorem ofWord_bool (w : BitVec 64) :
    ofWord .bool w = ⟨.bool, if w.toNat % 2 ^ DType.bool.bits = 0 then 0 else 1⟩ := by
  have hlow : w.setWidth 8 = 0 ↔ w.toNat % 2 ^ DType.bool.bits = 0 := by
    rw [← BitVec.toNat_inj, BitVec.toNat_setWidth]
    rfl
  simp only [ofWord, DType.kind, hlow]
  split <;> rfl

theorem ofWord_toWord (s : Scalar) : ofWord s.dtype s.toWord = s := by
  obtain ⟨t, x⟩ := s
  by_cases hb : t = .bool
  · subst hb
    rcases BitVec.eq_zero_or_eq_one x with rfl | rfl <;> decide
  · rw [ofWord_of_ne_bool hb, toWord, BitVec.setWidth_setWidth_of_le _ t.width_le_word,
      BitVec.setWidth_eq]

theorem toNat_toWord_ofWord (h : t ≠ .bool) (w : BitVec 64) :
    (ofWord t w).toWord.toNat = w.toNat % 2 ^ t.bits := by
  rw [toNat_toWord, ofWord_of_ne_bool h, BitVec.toNat_setWidth, DType.width_eq_bits h]

theorem toNat_toWord_ofWord_bool (w : BitVec 64) :
    (ofWord .bool w).toWord.toNat = if w.toNat % 2 ^ DType.bool.bits = 0 then 0 else 1 := by
  rw [toNat_toWord, ofWord_bool]
  dsimp only
  split <;> rfl

theorem ofWord_congr (h : w.toNat % 2 ^ t.bits = w'.toNat % 2 ^ t.bits) :
    ofWord t w = ofWord t w' := by
  by_cases hb : t = .bool
  · subst hb
    rw [ofWord_bool, ofWord_bool, h]
  · have hx : w.setWidth t.width = w'.setWidth t.width := by
      rw [← BitVec.toNat_inj, BitVec.toNat_setWidth, BitVec.toNat_setWidth,
        DType.width_eq_bits hb, h]
    rw [ofWord_of_ne_bool hb, ofWord_of_ne_bool hb, hx]

/-! ## Bytes -/

/-- The bytes of an element as a machine keeps them. -/
def store (order : ByteOrder) (s : Scalar) : List UInt8 := order.arrange s.toBytes

/-- The element in bytes that a machine keeps. -/
def load (order : ByteOrder) (t : DType) (bytes : List UInt8) : Scalar :=
  ofBytes t (order.arrange bytes)

/-- The number in an empty slot of eight bytes once the bytes of an element are put at its start. -/
def storeInSlot (order : ByteOrder) (s : Scalar) : BitVec 64 :=
  BitVec.ofNat 64
    (ofLittleEndian (order.arrange (s.store order ++ List.replicate (8 - s.dtype.itemsize) 0)))

theorem length_store (order : ByteOrder) (s : Scalar) :
    (s.store order).length = s.dtype.itemsize := by
  simp [store]

theorem load_store (order : ByteOrder) (s : Scalar) : load order s.dtype (s.store order) = s := by
  rw [load, store, ByteOrder.arrange_arrange, ofBytes_toBytes]

theorem ofLittleEndian_cons (b : UInt8) (bytes : List UInt8) :
    ofLittleEndian (b :: bytes) = b.toNat + 256 * ofLittleEndian bytes := rfl

theorem ofLittleEndian_zeros (n : Nat) : ofLittleEndian (List.replicate n 0) = 0 := by
  induction n with
  | zero => rfl
  | succ n ih => simp [List.replicate_succ, ofLittleEndian_cons, ih]

theorem ofLittleEndian_append_zeros (bytes : List UInt8) (n : Nat) :
    ofLittleEndian (bytes ++ List.replicate n 0) = ofLittleEndian bytes := by
  induction bytes with
  | nil => exact ofLittleEndian_zeros n
  | cons b bytes ih => rw [List.cons_append, ofLittleEndian_cons, ofLittleEndian_cons, ih]

theorem storeInSlot_leastFirst (s : Scalar) : s.storeInSlot .leastFirst = Loop.slot s := by
  rw [storeInSlot, store, ByteOrder.arrange_leastFirst, ByteOrder.arrange_leastFirst,
    ofLittleEndian_append_zeros, Loop.slot]

/--
Every element is read back from its word and, in either order of bytes, from the bytes it takes in
an array. Where the least significant byte comes first, its bytes at the start of an empty slot make
its word. A word that is read as an element and written again keeps the bits of the type, or becomes
zero or one for a truth value, and words that agree in these bits are read alike.
-/
theorem encodings_invert :
    (∀ s : Scalar,
      ofWord s.dtype s.toWord = s ∧
      (∀ order, (s.store order).length = s.dtype.itemsize ∧
        load order s.dtype (s.store order) = s) ∧
      s.storeInSlot .leastFirst = s.toWord ∧ Loop.slot s = s.toWord) ∧
    ∀ (t : DType) (w : BitVec 64),
      (t ≠ .bool → (ofWord t w).toWord.toNat = w.toNat % 2 ^ t.bits) ∧
      (t = .bool →
        (ofWord t w).toWord.toNat = if w.toNat % 2 ^ t.bits = 0 then 0 else 1) ∧
      ∀ w' : BitVec 64,
        w.toNat % 2 ^ t.bits = w'.toNat % 2 ^ t.bits → ofWord t w = ofWord t w' := by
  constructor
  · intro s
    have hslot := Loop.slot_eq_toWord s
    exact ⟨s.ofWord_toWord, fun order => ⟨s.length_store order, s.load_store order⟩,
      s.storeInSlot_leastFirst.trans hslot, hslot⟩
  · intro t w
    refine ⟨fun h => toNat_toWord_ofWord h w, ?truth, fun w' h => ofWord_congr h⟩
    case truth =>
      rintro rfl
      exact toNat_toWord_ofWord_bool w

/-- A negative element of two bytes, an element that is no number, and a truth value in a word whose
lowest byte is zero. -/
theorem encodings_invert_narrow :
    (∀ order, load order .int16 (store order ⟨.int16, -2⟩) = ⟨.int16, -2⟩) ∧
      storeInSlot .leastFirst ⟨.int16, -2⟩ = 0xFFFE ∧
      ofWord .float32 0x7FA00001 = ⟨.float32, 0x7FA00001⟩ ∧
      (ofWord .int16 0x1FFFE).toWord.toNat = 0xFFFE ∧
      ofWord .bool 0x100 = ofWord .bool 0 := by
  obtain ⟨hback, hword⟩ := encodings_invert
  obtain ⟨-, hbytes, hslot, -⟩ := hback ⟨.int16, -2⟩
  obtain ⟨hnan, -, -, -⟩ := hback ⟨.float32, 0x7FA00001⟩
  refine ⟨fun order => (hbytes order).2, hslot.trans (by decide), hnan, ?_, ?_⟩
  · exact ((hword .int16 0x1FFFE).1 (by decide)).trans (by decide)
  · exact (hword .bool 0x100).2.2 0 (by decide)

end Scalar

end Pointwise

import Pointwise.Loop
import Pointwise.Proofs.Scalar.Arith

/-!
# Encodings are inverse to each other

An element is read back from its bytes and from its word.
-/

namespace Pointwise

theorem DType.width_le_word (t : DType) : t.width ≤ 64 := by cases t <;> decide

theorem DType.two_pow_bits (t : DType) : 2 ^ t.bits = 256 ^ t.itemsize := by
  rw [bits, Nat.pow_mul]

namespace Scalar

theorem ofLittleEndian_littleEndian (k n : Nat) :
    ofLittleEndian (littleEndian k n) = n % 256 ^ k := by
  induction k generalizing n with
  | zero => simp [littleEndian, ofLittleEndian, Nat.mod_one]
  | succ k ih =>
    have hstep : ofLittleEndian (littleEndian (k + 1) n) =
        n % 256 + 256 * ofLittleEndian (littleEndian k (n / 256)) := by
      simp [littleEndian, ofLittleEndian]
    rw [hstep, ih, Nat.pow_succ', Nat.mod_mul]

theorem toNat_bits_lt (s : Scalar) : s.bits.toNat < 256 ^ s.dtype.itemsize := by
  rw [← DType.two_pow_bits]
  exact Nat.lt_of_lt_of_le s.bits.isLt (Nat.pow_le_pow_right (by decide) s.dtype.width_le_bits)

theorem ofLittleEndian_toBytes (s : Scalar) : ofLittleEndian s.toBytes = s.bits.toNat := by
  rw [toBytes, ofLittleEndian_littleEndian, Nat.mod_eq_of_lt s.toNat_bits_lt]

theorem ofBytes_toBytes_bool (x : BitVec 1) :
    ofBytes .bool (toBytes ⟨.bool, x⟩) = ⟨.bool, x⟩ := by
  rcases BitVec.eq_zero_or_eq_one x with rfl | rfl <;> decide

theorem ofBytes_toBytes (s : Scalar) : ofBytes s.dtype s.toBytes = s := by
  have hnat := s.ofLittleEndian_toBytes
  obtain ⟨t, x⟩ := s
  by_cases hb : t = .bool
  · subst hb
    exact ofBytes_toBytes_bool x
  · have hk : t.kind ≠ .bool := fun hk => hb (DType.kind_eq_bool.1 hk)
    simp [ofBytes, hnat]

theorem toNat_toWord (s : Scalar) : s.toWord.toNat = s.bits.toNat := by
  rw [toWord, BitVec.toNat_setWidth, Nat.mod_eq_of_lt]
  exact Nat.lt_of_lt_of_le s.bits.isLt
    (Nat.pow_le_pow_right (by decide) s.dtype.width_le_word)

end Scalar

namespace Loop

theorem slot_eq_toWord (s : Scalar) : slot s = s.toWord := by
  rw [slot, Scalar.ofLittleEndian_toBytes]
  apply BitVec.eq_of_toNat_eq
  simp [Scalar.toWord]

theorem result_toWord (s : Scalar) (stack : Native.Stack) :
    result s.dtype (s.toWord :: stack) = s := by
  show Scalar.ofBytes s.dtype (Scalar.littleEndian s.dtype.itemsize s.toWord.toNat) = s
  rw [Scalar.toNat_toWord]
  exact s.ofBytes_toBytes

end Loop

end Pointwise

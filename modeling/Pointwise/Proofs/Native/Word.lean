import Pointwise.Native.Lowering

/-!
# Elements in machine words

How the elements of a type are read from the low bits of a word. Integers are told by their numbers,
floating-point numbers by their values.
-/

namespace Pointwise

namespace DType

theorem width_le_lane (t : DType) : t.width ≤ t.lane.width := by cases t <;> decide

theorem lane_width {t : DType} (h : t ≠ .bool) : t.lane.width = t.width := by
  cases t <;> first | rfl | exact absurd rfl h

theorem lane_width_eq_bits (t : DType) : t.lane.width = t.bits := by cases t <;> rfl

theorem lane_format (t : DType) : t.lane.format = t.format := by cases t <;> rfl

theorem eq_of_isFloat {t : DType} (h : t.isFloat = true) : t = .float32 ∨ t = .float64 := by
  cases t <;> first | exact .inl rfl | exact .inr rfl | cases h

theorem isFloat_of_isInteger {t : DType} (h : t.isInteger = true) : t.isFloat = false := by
  cases t <;> first | rfl | cases h

theorem isInteger_of_not_float {t : DType} (h : t.isFloat = false) (hbool : t ≠ .bool) :
    t.isInteger = true := by
  revert h hbool
  cases t <;> decide

theorem ne_bool_of_isInteger {t : DType} (h : t.isInteger = true) : t ≠ .bool := by
  rintro rfl
  cases h

theorem lane_least (t : DType) : t.lane.least t.isSigned = t.least := by cases t <;> rfl

theorem lane_greatest {t : DType} (h : t.isInteger = true) :
    t.lane.greatest t.isSigned = t.greatest := by
  cases t <;> first | rfl | cases h

theorem ne_bool_of_isSigned {t : DType} (h : t.isSigned = true) : t ≠ .bool := by
  rintro rfl
  cases h

end DType

namespace Native

/-! ## Integers in a lane -/

namespace Lane

theorem width_le (l : Lane) : l.width ≤ 64 := by cases l <;> decide

/-- Whether a lane can hold an integer. -/
def Fits (l : Lane) (signed : Bool) (n : Int) : Prop := l.least signed ≤ n ∧ n ≤ l.greatest signed

theorem Fits.i64 {l : Lane} {signed : Bool} {n : Int} (h : l.Fits signed n) :
    Lane.i64.Fits signed n := by
  cases l <;> cases signed <;> simp [Fits, least, greatest, width] at h ⊢ <;> omega

theorem readInt_word_ofInt {l : Lane} {signed : Bool} {n : Int} (h : l.Fits signed n) :
    l.readInt signed (word (BitVec.ofInt l.width n)) = n := by
  obtain ⟨hlo, hhi⟩ := h
  have hread : l.read (word (BitVec.ofInt l.width n)) = BitVec.ofInt l.width n := by
    cases l <;> simp [read, word, width]
  have hpos : 0 < l.width := by cases l <;> decide
  have hpow : 2 ^ l.width = 2 * 2 ^ (l.width - 1) := by rw [← Nat.pow_succ']; congr 1; omega
  rw [readInt, hread]
  cases signed with
  | true =>
    simp only [least, greatest, if_true] at hlo hhi ⊢
    rw [BitVec.toInt_ofInt, Int.bmod_eq_of_le] <;> omega
  | false =>
    simp only [least, greatest, Bool.false_eq_true, if_false] at hlo hhi ⊢
    rw [BitVec.toNat_ofInt, Int.emod_eq_of_lt hlo (by omega), Int.toNat_of_nonneg hlo]

end Lane

theorem setWidth_ofInt {v w : Nat} (h : w ≤ v) (n : Int) :
    (BitVec.ofInt v n).setWidth w = BitVec.ofInt w n := by
  have hnonneg (k : Nat) : 0 ≤ n % (2 ^ k : Nat) :=
    Int.emod_nonneg _ (by exact_mod_cast Nat.ne_of_gt (Nat.two_pow_pos k))
  have hdvd : ((2 ^ w : Nat) : Int) ∣ (2 ^ v : Nat) := by exact_mod_cast Nat.pow_dvd_pow 2 h
  apply BitVec.eq_of_toNat_eq
  rw [BitVec.toNat_setWidth, BitVec.toNat_ofInt, BitVec.toNat_ofInt]
  apply Int.ofNat_inj.1
  rw [Int.natCast_emod, Int.toNat_of_nonneg (hnonneg v), Int.toNat_of_nonneg (hnonneg w),
    Int.emod_emod_of_dvd n hdvd]

theorem read_word_ofInt {l m : Lane} (h : l.width ≤ m.width) (n : Int) :
    l.read (word (BitVec.ofInt m.width n)) = BitVec.ofInt l.width n := by
  rw [Lane.read, word, BitVec.setWidth_setWidth_of_le _ (Nat.le_trans h m.width_le), setWidth_ofInt h]

end Native

namespace Scalar

open Native

/-! ## Elements of integer types -/

theorem toInt_of_unsigned {s : Scalar} (h : s.dtype.isSigned = false) :
    s.toInt = s.bits.toNat := by
  simp [toInt, DType.toInt, h]

theorem toInt_of_signed {s : Scalar} (h : s.dtype.isSigned = true) : s.toInt = s.bits.toInt := by
  simp [toInt, DType.toInt, h]

theorem toWord_eq_ofInt (s : Scalar) :
    s.toWord = word (BitVec.ofInt s.dtype.lane.width s.toInt) := by
  rw [toWord, word]
  cases h : s.dtype.isSigned with
  | true =>
    rw [toInt_of_signed h, DType.lane_width (DType.ne_bool_of_isSigned h), BitVec.ofInt_toInt]
  | false =>
    have hw : s.dtype.width ≤ s.dtype.lane.width := s.dtype.width_le_lane
    rw [toInt_of_unsigned h, BitVec.ofInt_natCast, BitVec.ofNat_toNat,
      BitVec.setWidth_setWidth (by omega)]

theorem fits_toInt (s : Scalar) : s.dtype.lane.Fits s.dtype.isSigned s.toInt := by
  cases h : s.dtype.isSigned with
  | true =>
    have hlo := BitVec.le_toInt s.bits
    have hhi := BitVec.toInt_lt (x := s.bits)
    rw [toInt_of_signed h, Lane.Fits, Lane.least, Lane.greatest,
      DType.lane_width (DType.ne_bool_of_isSigned h), if_pos rfl, if_pos rfl]
    push_cast
    omega
  | false =>
    have hlt : s.bits.toNat < 2 ^ s.dtype.lane.width :=
      Nat.lt_of_lt_of_le s.bits.isLt (Nat.pow_le_pow_right (by decide) s.dtype.width_le_lane)
    rw [toInt_of_unsigned h, Lane.Fits, Lane.least, Lane.greatest, if_neg (by decide),
      if_neg (by decide)]
    omega

theorem readInt_toWord (s : Scalar) :
    s.dtype.lane.readInt s.dtype.isSigned s.toWord = s.toInt := by
  rw [toWord_eq_ofInt, Lane.readInt_word_ofInt s.fits_toInt]

theorem toWord_ofInt {t : DType} (h : t.isInteger = true) (n : Int) :
    (ofInt n t).toWord = word (BitVec.ofInt t.lane.width n) := by
  cases t with
  | bool | float32 | float64 => cases h
  | int8 | int16 | int32 | int64 | uint8 | uint16 | uint32 | uint64 => rfl

theorem toWord_ofInt_float {t : DType} (h : t.isFloat = true) (n : Int) :
    (ofInt n t).toWord = word (t.lane.format.ofInt t.lane.width n) := by
  cases t with
  | float32 | float64 => rfl
  | _ => cases h

theorem toWord_ofInt_bool (n : Int) : (ofInt n .bool).toWord = truth (n != 0) := by
  by_cases h : n = 0
  · subst h
    rfl
  · have hne : (n != 0) = true := by simpa using h
    rw [hne, ofInt]
    simp only [DType.kind, h, if_false]
    rfl

theorem toNat_read_toWord (s : Scalar) :
    (s.dtype.lane.read s.toWord).toNat = s.bits.toNat := by
  have hlane : s.bits.toNat < 2 ^ s.dtype.lane.width :=
    Nat.lt_of_lt_of_le s.bits.isLt (Nat.pow_le_pow_right (by decide) s.dtype.width_le_lane)
  have hword : s.bits.toNat < 2 ^ 64 :=
    Nat.lt_of_lt_of_le hlane (Nat.pow_le_pow_right (by decide) s.dtype.lane.width_le)
  rw [Lane.read, toWord, BitVec.toNat_setWidth, BitVec.toNat_setWidth, Nat.mod_eq_of_lt hword,
    Nat.mod_eq_of_lt hlane]

/-! ## Floating-point elements -/

theorem value_toWord (s : Scalar) :
    s.dtype.lane.format.value (s.dtype.lane.read s.toWord) = s.toValue := by
  rw [Binary.Format.value, toNat_read_toWord, DType.lane_format]
  rfl

theorem toWord_ofValue {t : DType} (h : t.isFloat = true) (v : Binary.Value) :
    (ofValue v t).toWord = word (t.lane.format.pattern t.lane.width v) := by
  cases t with
  | float32 | float64 => rfl
  | _ => cases h

end Scalar

end Pointwise

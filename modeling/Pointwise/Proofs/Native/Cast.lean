import Pointwise.Proofs.Native.Word
import Pointwise.Proofs.Scalar.Arith

/-!
# Conversions in machine code

The code of a conversion turns the word of an element into the word of the converted element. There
is one lemma for each shape that the code can have.
-/

namespace Pointwise

namespace Native

/-! ## Bounds -/

theorem truncateWithin_narrow {lo hi lo' hi' : Int} (v : Binary.Value) (hlo : lo ≤ lo')
    (hlo' : lo' ≤ 0) (hhi' : 0 ≤ hi') (hhi : hi' ≤ hi) :
    min (max (v.truncateWithin lo hi) lo') hi' = v.truncateWithin lo' hi' := by
  cases v with
  | nan => simp only [Binary.Value.truncateWithin]; omega
  | infinite s => cases s <;> simp only [Binary.Value.truncateWithin] <;> simp <;> omega
  | finite s q => simp only [Binary.Value.truncateWithin]; omega

theorem fits_truncateWithin (l : Lane) (signed : Bool) (v : Binary.Value) :
    l.Fits signed (v.truncateWithin (l.least signed) (l.greatest signed)) := by
  have hlo : l.least signed ≤ 0 := by cases l <;> cases signed <;> decide
  have hhi : 0 ≤ l.greatest signed := by cases l <;> cases signed <;> decide
  unfold Lane.Fits
  cases v with
  | nan => exact ⟨hlo, hhi⟩
  | infinite s => cases s <;> simp only [Binary.Value.truncateWithin] <;> simp <;> omega
  | finite s q => simp only [Binary.Value.truncateWithin]; omega

/-! ## Single instructions -/

theorem run_unary (slots : List (BitVec 64)) (stack : Stack) (op : UnaryOp) (x : BitVec 64) :
    run slots (x :: stack) [.unary op] = op.apply x :: stack := rfl

theorem run_binary (slots : List (BitVec 64)) (stack : Stack) (op : BinaryOp) (x y : BitVec 64) :
    run slots (y :: x :: stack) [.binary op] = op.apply x y :: stack := rfl

theorem run_const_binary (slots : List (BitVec 64)) (stack : Stack) (op : BinaryOp)
    (x y : BitVec 64) : run slots (x :: stack) [.const y, .binary op] = op.apply x y :: stack :=
  rfl

section

variable {l : Lane} {signed : Bool} {m n : Int}

theorem apply_imax (hm : l.Fits signed m) (hn : l.Fits signed n) :
    (BinaryOp.imax signed l).apply (word (BitVec.ofInt l.width m)) (word (BitVec.ofInt l.width n)) =
      word (BitVec.ofInt l.width (max m n)) := by
  have hread (k : Int) := read_word_ofInt (Nat.le_refl l.width) k
  rw [BinaryOp.apply, Lane.readInt_word_ofInt hm, Lane.readInt_word_ofInt hn, Int.max_def]
  split <;> rw [hread]

theorem apply_imin (hm : l.Fits signed m) (hn : l.Fits signed n) :
    (BinaryOp.imin signed l).apply (word (BitVec.ofInt l.width m)) (word (BitVec.ofInt l.width n)) =
      word (BitVec.ofInt l.width (min m n)) := by
  have hread (k : Int) := read_word_ofInt (Nat.le_refl l.width) k
  rw [BinaryOp.apply, Lane.readInt_word_ofInt hm, Lane.readInt_word_ofInt hn, Int.min_def]
  split <;> rw [hread]

end

end Native

namespace Scalar

open Native

variable (slots : List (BitVec 64)) (stack : Stack) {s : Scalar} {t : DType}

theorem cast_of_float (hne : s.dtype ≠ t) (h : s.dtype.isFloat = true) :
    s.cast t = ofValue s.toValue t := by
  rw [cast, if_neg hne, if_pos h]

theorem cast_of_not_float (hne : s.dtype ≠ t) (h : s.dtype.isFloat = false) :
    s.cast t = ofInt s.toInt t := by
  rw [cast, if_neg hne, if_neg (by simp [h])]

/-! ## Truth values -/

theorem toInt_eq_zero (s : Scalar) : s.toInt = 0 ↔ s.bits.toNat = 0 := by
  cases h : s.dtype.isSigned with
  | true =>
    rw [toInt_of_signed h]
    constructor
    · intro h0
      rw [BitVec.eq_of_toInt_eq (x := s.bits) (y := 0#_) (by simpa using h0)]
      rfl
    · intro h0
      rw [BitVec.eq_of_toNat_eq (x := s.bits) (y := 0#_) (by simpa using h0)]
      simp
  | false => rw [toInt_of_unsigned h]; omega

theorem holds_ne_compare (m n : Int) :
    Binary.Comparison.ne.holds (some (Ord.compare m n)) = (m != n) := by
  rw [Binary.Comparison.holds, Bool.eq_iff_iff, bne_iff_ne, bne_iff_ne, ne_eq, Option.some_inj,
    Std.compare_eq_iff_eq]

theorem run_int_to_bool (hne : s.dtype ≠ .bool) (h : s.dtype.isFloat = false) :
    run slots (s.toWord :: stack) (castCode s.dtype .bool) = (s.cast .bool).toWord :: stack := by
  have hcode : castCode s.dtype .bool =
      [.const 0, .binary (.icompare .ne false s.dtype.lane)] := by
    have hb : DType.bool.kind = .bool := rfl
    cases hk : s.dtype.kind with
    | float => simp [DType.isFloat, hk] at h
    | bool | signed | unsigned => simp only [castCode, if_neg hne, hk, hb]
  have hread : s.dtype.lane.readInt false s.toWord = s.bits.toNat := by
    rw [Lane.readInt, if_neg (by decide), toNat_read_toWord]
  have hzero : s.dtype.lane.readInt false 0 = 0 := by simp [Lane.readInt, Lane.read]
  rw [cast_of_not_float hne h, toWord_ofInt_bool, hcode]
  simp only [run, exec, Stack.pop, BinaryOp.apply, hread, hzero, holds_ne_compare]
  congr 2
  rw [Bool.eq_iff_iff, bne_iff_ne, bne_iff_ne, ne_eq, ne_eq, toInt_eq_zero]
  omega

theorem holds_ne_order?_zero (v : Binary.Value) :
    Binary.Comparison.ne.holds (v.order? (.finite false 0)) =
      !decide (v = .finite false 0 ∨ v = .finite true 0) := by
  cases v with
  | nan => rfl
  | infinite s => cases s <;> rfl
  | finite s q =>
    by_cases hq : q = 0
    · subst hq
      cases s <;> rfl
    · have hs : Binary.Value.signed s q ≠ 0 := by
        cases s with
        | false => exact hq
        | true => exact fun h => hq (by rw [← Rat.neg_neg q, show -q = 0 from h, Rat.neg_zero])
      have h0 : Binary.Value.signed false 0 = 0 := rfl
      simp only [Binary.Value.order?, h0, hs, if_false, Binary.Value.finite.injEq, hq, and_false,
        or_self]
      split <;> rfl

theorem run_float_to_bool (h : s.dtype.isFloat = true) :
    run slots (s.toWord :: stack) (castCode s.dtype .bool) = (s.cast .bool).toWord :: stack := by
  have hne : s.dtype ≠ .bool := by rintro hb; rw [hb] at h; cases h
  have hcode : castCode s.dtype .bool = [.const 0, .binary (.fcompare .ne s.dtype.lane)] := by
    have hb : DType.bool.kind = .bool := rfl
    have hk : s.dtype.kind = .float := by simpa [DType.isFloat] using h
    simp only [castCode, if_neg hne, hk, hb]
  have hzero : s.dtype.lane.format.value (s.dtype.lane.read 0) = .finite false 0 := by
    cases s.dtype.lane <;> decide +kernel
  rw [cast_of_float hne h, hcode]
  simp only [run, exec, Stack.pop, BinaryOp.apply, Binary.Format.compare, value_toWord, hzero,
    holds_ne_order?_zero, List.cons.injEq, and_true]
  by_cases hv : s.toValue = .finite false 0 ∨ s.toValue = .finite true 0
  · simp only [ofValue, DType.kind, hv]
    rfl
  · simp only [ofValue, DType.kind, hv]
    rfl

/-! ## Numbers -/

theorem run_float_to_float (hne : s.dtype ≠ t) (h : s.dtype.isFloat = true)
    (ht : t.isFloat = true) :
    run slots (s.toWord :: stack) (castCode s.dtype t) = (s.cast t).toWord :: stack := by
  have hs : s.dtype.kind = .float := by simpa [DType.isFloat] using h
  have ht' : t.kind = .float := by simpa [DType.isFloat] using ht
  rw [cast_of_float hne h, toWord_ofValue ht]
  simp only [castCode, if_neg hne, hs, ht', run, exec, Stack.pop, UnaryOp.apply,
    Binary.Format.convert, value_toWord]

theorem toWord_ofValue_int (ht : t.isInteger = true) (v : Binary.Value) :
    (ofValue v t).toWord =
      word (BitVec.ofInt t.lane.width (v.truncateWithin t.least t.greatest)) := by
  cases t with
  | bool | float32 | float64 => cases ht
  | int8 | int16 | int32 | int64 | uint8 | uint16 | uint32 | uint64 => rfl

theorem run_float_to_int (h : s.dtype.isFloat = true) (ht : t.isInteger = true)
    (hw : 32 ≤ t.bits) :
    run slots (s.toWord :: stack) (castCode s.dtype t) = (s.cast t).toWord :: stack := by
  have hne : s.dtype ≠ t := by rintro rfl; simp [DType.isFloat_of_isInteger ht] at h
  have hcode : castCode s.dtype t = [.unary (.truncate s.dtype.lane t.isSigned t.lane)] := by
    have hs : s.dtype.kind = .float := by simpa [DType.isFloat] using h
    cases hk : t.kind with
    | bool | float => simp [DType.isInteger, DType.isSigned, DType.isUnsigned, hk] at ht
    | signed | unsigned => simp only [castCode, if_neg hne, hs, hk, if_pos hw]
  rw [cast_of_float hne h, toWord_ofValue_int ht, hcode]
  simp only [run, exec, Stack.pop, UnaryOp.apply, value_toWord, DType.lane_least,
    DType.lane_greatest ht]

theorem clamp_bounds (ht : t.isInteger = true) (hw : t.bits < 32) :
    Lane.i32.least t.isSigned ≤ t.least ∧ t.least ≤ 0 ∧ 0 ≤ t.greatest ∧
      t.greatest ≤ Lane.i32.greatest t.isSigned := by
  cases t with
  | bool | float32 | float64 => cases ht
  | int32 | int64 | uint32 | uint64 => exact absurd hw (by decide)
  | int8 | int16 | uint8 | uint16 => decide

theorem run_clampCode (ht : t.isInteger = true) (hw : t.bits < 32) {n : Int}
    (hn : Lane.i32.Fits t.isSigned n) :
    run slots (word (BitVec.ofInt Lane.i32.width n) :: stack) (clampCode t) =
      word (BitVec.ofInt Lane.i32.width (min (max n t.least) t.greatest)) :: stack := by
  obtain ⟨h1, h2, h3, h4⟩ := clamp_bounds ht hw
  have hlow : Lane.i32.Fits t.isSigned t.least := ⟨h1, by omega⟩
  have hhigh : Lane.i32.Fits t.isSigned t.greatest := ⟨by omega, h4⟩
  have hmax : Lane.i32.Fits t.isSigned (max n t.least) := by
    unfold Lane.Fits at hn hlow ⊢
    omega
  cases hs : t.isSigned with
  | true =>
    rw [hs] at hn hlow hhigh hmax
    have hcode : clampCode t =
        [.const (word (BitVec.ofInt Lane.i32.width t.least)), .binary (.imax true .i32)] ++
          [.const (word (BitVec.ofInt Lane.i32.width t.greatest)), .binary (.imin true .i32)] := by
      simp [clampCode, hs, Lane.width]
    rw [hcode, run_append, run_const_binary, apply_imax hn hlow, run_const_binary,
      apply_imin hmax hhigh]
  | false =>
    rw [hs] at hn hlow hhigh hmax
    have hcode : clampCode t =
        [.const (word (BitVec.ofInt Lane.i32.width t.greatest)), .binary (.imin false .i32)] := by
      simp [clampCode, hs, Lane.width]
    -- There is no lower bound to impose on what has no sign.
    have hmax : max n t.least = n := by
      have h0 : Lane.i32.least false = 0 := rfl
      unfold Lane.Fits at hn
      rw [hs] at h1
      omega
    rw [hcode, run_const_binary, apply_imin hn hhigh, hmax]

theorem run_float_to_narrow (h : s.dtype.isFloat = true) (ht : t.isInteger = true)
    (hw : t.bits < 32) :
    run slots (s.toWord :: stack) (castCode s.dtype t) = (s.cast t).toWord :: stack := by
  have hne : s.dtype ≠ t := by rintro rfl; simp [DType.isFloat_of_isInteger ht] at h
  have hcode : castCode s.dtype t = [.unary (.truncate s.dtype.lane t.isSigned .i32)] ++
      clampCode t ++ [.unary (.reduce t.lane)] := by
    have hs : s.dtype.kind = .float := by simpa [DType.isFloat] using h
    have hw' : ¬32 ≤ t.bits := by omega
    cases hk : t.kind with
    | bool | float => simp [DType.isInteger, DType.isSigned, DType.isUnsigned, hk] at ht
    | signed | unsigned => simp only [castCode, if_neg hne, hs, hk, if_neg hw']; rfl
  obtain ⟨h1, h2, h3, h4⟩ := clamp_bounds ht hw
  have hlane : t.lane.width ≤ Lane.i32.width := by
    rw [DType.lane_width_eq_bits]
    exact Nat.le_of_lt hw
  rw [cast_of_float hne h, toWord_ofValue_int ht, hcode, run_append, run_append, run_unary,
    UnaryOp.apply, value_toWord, run_clampCode slots stack ht hw (fits_truncateWithin ..),
    truncateWithin_narrow _ h1 h2 h3 h4, run_unary, UnaryOp.apply, read_word_ofInt hlane]

/-! ## Integers -/

theorem run_int_to_float (h : s.dtype.isFloat = false) (ht : t.isFloat = true) :
    run slots (s.toWord :: stack) (castCode s.dtype t) = (s.cast t).toWord :: stack := by
  have hne : s.dtype ≠ t := by rintro rfl; simp [h] at ht
  have hcode : castCode s.dtype t =
      (if s.dtype.bits < 64 then [.unary (.extend s.dtype.isSigned s.dtype.lane .i64)] else []) ++
        [.unary (.ofInt s.dtype.isSigned t.lane)] := by
    have hk : t.kind = .float := by simpa [DType.isFloat] using ht
    cases hs : s.dtype.kind with
    | float => simp [DType.isFloat, hs] at h
    | bool | signed | unsigned => simp only [castCode, if_neg hne, hs, hk]
  have hread : Lane.i64.readInt s.dtype.isSigned (word (BitVec.ofInt Lane.i64.width s.toInt)) =
      s.toInt := by
    exact Lane.readInt_word_ofInt s.fits_toInt.i64
  have hwide : run slots (s.toWord :: stack)
      (if s.dtype.bits < 64 then [.unary (.extend s.dtype.isSigned s.dtype.lane .i64)] else []) =
        word (BitVec.ofInt Lane.i64.width s.toInt) :: stack := by
    by_cases hw : s.dtype.bits < 64
    · rw [if_pos hw, run_unary, UnaryOp.apply, readInt_toWord]
    · have hlane : s.dtype.lane.width = Lane.i64.width := by
        have := s.dtype.lane.width_le
        rw [DType.lane_width_eq_bits] at this ⊢
        exact Nat.le_antisymm this (Nat.le_of_not_lt hw)
      rw [if_neg hw, run, toWord_eq_ofInt, hlane]
  rw [cast_of_not_float hne h, hcode, run_append, hwide, run_unary, UnaryOp.apply, hread,
    toWord_ofInt_float ht]

theorem run_int_to_int (hne : s.dtype ≠ t) (h : s.dtype.isFloat = false) (ht : t.isInteger = true) :
    run slots (s.toWord :: stack) (castCode s.dtype t) = (s.cast t).toWord :: stack := by
  have hcode : castCode s.dtype t =
      if s.dtype.bits < t.bits then [.unary (.extend s.dtype.isSigned s.dtype.lane t.lane)]
      else if t.bits < s.dtype.bits then [.unary (.reduce t.lane)]
      else [] := by
    cases hs : s.dtype.kind with
    | float => simp [DType.isFloat, hs] at h
    | bool | signed | unsigned =>
      cases hk : t.kind with
      | bool | float => simp [DType.isInteger, DType.isSigned, DType.isUnsigned, hk] at ht
      | signed | unsigned => simp only [castCode, if_neg hne, hs, hk]
  rw [cast_of_not_float hne h, toWord_ofInt ht, hcode]
  split
  · rw [run_unary, UnaryOp.apply, readInt_toWord]
  · split
    · have hlane : t.lane.width ≤ s.dtype.lane.width := by
        rw [DType.lane_width_eq_bits, DType.lane_width_eq_bits]
        omega
      rw [run_unary, UnaryOp.apply, toWord_eq_ofInt, read_word_ofInt hlane]
    · have hlane : s.dtype.lane.width = t.lane.width := by
        rw [DType.lane_width_eq_bits, DType.lane_width_eq_bits]
        omega
      rw [run, toWord_eq_ofInt, hlane]

end Scalar

/-- The code of a conversion converts. -/
theorem Native.run_castCode (slots : List (BitVec 64)) (stack : Stack) (s : Scalar) (t : DType) :
    run slots (s.toWord :: stack) (castCode s.dtype t) = (s.cast t).toWord :: stack := by
  by_cases hne : s.dtype = t
  · subst hne
    rw [castCode, if_pos rfl, run, Scalar.cast_self]
  cases hs : s.dtype.isFloat with
  | true =>
    cases ht : t.kind with
    | bool =>
      obtain rfl := DType.kind_eq_bool.1 ht
      exact Scalar.run_float_to_bool slots stack hs
    | float => exact Scalar.run_float_to_float slots stack hne hs (by simp [DType.isFloat, ht])
    | signed | unsigned =>
      have hint : t.isInteger = true := by
        simp [DType.isInteger, DType.isSigned, DType.isUnsigned, ht]
      by_cases hw : 32 ≤ t.bits
      · exact Scalar.run_float_to_int slots stack hs hint hw
      · exact Scalar.run_float_to_narrow slots stack hs hint (by omega)
  | false =>
    cases ht : t.kind with
    | bool =>
      obtain rfl := DType.kind_eq_bool.1 ht
      exact Scalar.run_int_to_bool slots stack hne hs
    | float => exact Scalar.run_int_to_float slots stack hs (by simp [DType.isFloat, ht])
    | signed | unsigned =>
      have hint : t.isInteger = true := by
        simp [DType.isInteger, DType.isSigned, DType.isUnsigned, ht]
      exact Scalar.run_int_to_int slots stack hne hs hint

end Pointwise

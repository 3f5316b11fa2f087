import Pointwise.Proofs.Binary.DoubleRounding
import Pointwise.Proofs.Native.Cast
import Pointwise.Proofs.Scalar.Arith
import Pointwise.Proofs.Scalar.Encoding

/-!
# Instructions on elements

Each instruction of arithmetic computes the word of the element that the boxed operation gives. Only
the extrema of floating-point numbers are left out, where the two treat the zeros differently.
-/

namespace Pointwise

namespace Native

open Binary (Comparison double single)

theorem toNat_word {l : Lane} (x : BitVec l.width) : (word x).toNat = x.toNat := by
  rw [word, BitVec.toNat_setWidth, Nat.mod_eq_of_lt]
  exact Nat.lt_of_lt_of_le x.isLt (Nat.pow_le_pow_right (by decide) l.width_le)

theorem toWord_eq_word {l : Lane} {s : Scalar} {x : BitVec l.width}
    (h : s.bits.toNat = x.toNat) : s.toWord = word x := by
  apply BitVec.eq_of_toNat_eq
  rw [Scalar.toNat_toWord, toNat_word, h]

theorem word_read_toWord (s : Scalar) : word (s.dtype.lane.read s.toWord) = s.toWord :=
  (toWord_eq_word s.toNat_read_toWord.symm).symm

theorem toNat_read_mk (t : DType) (x : BitVec t.width) :
    (t.lane.read (Scalar.toWord ⟨t, x⟩)).toNat = x.toNat :=
  Scalar.toNat_read_toWord ⟨t, x⟩

theorem readInt_mk (t : DType) (x : BitVec t.width) :
    t.lane.readInt t.isSigned (Scalar.toWord ⟨t, x⟩) = t.toInt x :=
  Scalar.readInt_toWord ⟨t, x⟩

/-! ## Integers -/

section

variable {t : DType} (x y : BitVec t.width)

theorem apply_iadd (ht : t ≠ .bool) :
    (BinaryOp.iadd t.lane).apply (Scalar.toWord ⟨t, x⟩) (Scalar.toWord ⟨t, y⟩) =
      Scalar.toWord ⟨t, x + y⟩ := by
  refine (toWord_eq_word ?_).symm
  rw [BitVec.toNat_add, BitVec.toNat_add, toNat_read_mk, toNat_read_mk, DType.lane_width ht]

theorem apply_isub (ht : t ≠ .bool) :
    (BinaryOp.isub t.lane).apply (Scalar.toWord ⟨t, x⟩) (Scalar.toWord ⟨t, y⟩) =
      Scalar.toWord ⟨t, x - y⟩ := by
  refine (toWord_eq_word ?_).symm
  rw [BitVec.toNat_sub, BitVec.toNat_sub, toNat_read_mk, toNat_read_mk, DType.lane_width ht]

theorem apply_imul (ht : t ≠ .bool) :
    (BinaryOp.imul t.lane).apply (Scalar.toWord ⟨t, x⟩) (Scalar.toWord ⟨t, y⟩) =
      Scalar.toWord ⟨t, x * y⟩ := by
  refine (toWord_eq_word ?_).symm
  rw [BitVec.toNat_mul, BitVec.toNat_mul, toNat_read_mk, toNat_read_mk, DType.lane_width ht]

theorem apply_ineg (ht : t ≠ .bool) :
    (UnaryOp.ineg t.lane).apply (Scalar.toWord ⟨t, x⟩) = Scalar.toWord ⟨t, -x⟩ := by
  refine (toWord_eq_word ?_).symm
  rw [BitVec.toNat_neg, BitVec.toNat_neg, toNat_read_mk, DType.lane_width ht]

theorem apply_imax_toWord :
    (BinaryOp.imax t.isSigned t.lane).apply (Scalar.toWord ⟨t, x⟩) (Scalar.toWord ⟨t, y⟩) =
      Scalar.toWord ⟨t, if t.toInt x ≤ t.toInt y then y else x⟩ := by
  rw [BinaryOp.apply, readInt_mk, readInt_mk]
  split
  · exact word_read_toWord ⟨t, y⟩
  · exact word_read_toWord ⟨t, x⟩

theorem apply_imin_toWord :
    (BinaryOp.imin t.isSigned t.lane).apply (Scalar.toWord ⟨t, x⟩) (Scalar.toWord ⟨t, y⟩) =
      Scalar.toWord ⟨t, if t.toInt y < t.toInt x then y else x⟩ := by
  rw [BinaryOp.apply, readInt_mk, readInt_mk]
  by_cases h : t.toInt x ≤ t.toInt y
  · rw [if_pos h, if_neg (by omega)]
    exact word_read_toWord ⟨t, x⟩
  · rw [if_neg h, if_pos (by omega)]
    exact word_read_toWord ⟨t, y⟩

end

/-! ## Truth values -/

theorem apply_imax_bool (x y : BitVec 1) :
    (BinaryOp.imax false .i8).apply (Scalar.toWord ⟨.bool, x⟩) (Scalar.toWord ⟨.bool, y⟩) =
      Scalar.toWord ⟨.bool, x ||| y⟩ := by
  rcases BitVec.eq_zero_or_eq_one x with rfl | rfl <;>
    rcases BitVec.eq_zero_or_eq_one y with rfl | rfl <;> decide

theorem apply_imin_bool (x y : BitVec 1) :
    (BinaryOp.imin false .i8).apply (Scalar.toWord ⟨.bool, x⟩) (Scalar.toWord ⟨.bool, y⟩) =
      Scalar.toWord ⟨.bool, x &&& y⟩ := by
  rcases BitVec.eq_zero_or_eq_one x with rfl | rfl <;>
    rcases BitVec.eq_zero_or_eq_one y with rfl | rfl <;> decide

theorem apply_flip (b : Bool) : UnaryOp.flip.apply (truth b) = truth !b := by
  cases b <;> decide

theorem read_truth (b : Bool) : Lane.i8.read (truth b) = 0 ↔ b = false := by
  cases b <;> decide

theorem toWord_of_bool {s : Scalar} (h : s.dtype = .bool) : s.toWord = truth s.isTruthy := by
  obtain ⟨t, x⟩ := s
  obtain rfl : t = .bool := h
  rcases BitVec.eq_zero_or_eq_one x with rfl | rfl <;> decide

/-! ## Floating-point numbers -/

theorem onFloat_double (op : ArithOp) (x y : BitVec 64) :
    Scalar.onFloat op .float64 x y = ⟨.float64, Scalar.onDouble op x y⟩ := by
  simp [Scalar.onFloat, Scalar.cast, Scalar.bitsAs, Scalar.float64, DType.width]

theorem onFloat_single (op : ArithOp) (x y : BitVec 32) :
    Scalar.onFloat op .float32 x y = ⟨.float32, double.convert single 32
      (Scalar.onDouble op (single.convert double 64 x) (single.convert double 64 y))⟩ := by
  have hwide (z : BitVec 32) :
      (Scalar.cast ⟨.float32, z⟩ .float64).bitsAs .float64 = single.convert double 64 z := by
    show (single.convert double 64 z).setWidth 64 = _
    simp
  simp only [Scalar.onFloat]
  rw [hwide, hwide]
  rfl

theorem read_double (x : BitVec 64) : Lane.f64.read (Scalar.toWord ⟨.float64, x⟩) = x :=
  BitVec.eq_of_toNat_eq (toNat_read_mk .float64 x)

theorem read_single (x : BitVec 32) : Lane.f32.read (Scalar.toWord ⟨.float32, x⟩) = x :=
  BitVec.eq_of_toNat_eq (toNat_read_mk .float32 x)

theorem run_arith_single {name : String} {op : ArithOp} {i : Instr}
    (hext : ¬(op = .max ∨ op = .min)) (hi : arithInstr name op .float32 = .ok i)
    (slots : List (BitVec 64)) (stack : Stack) (x y : BitVec 32) :
    run slots (Scalar.toWord ⟨.float32, y⟩ :: Scalar.toWord ⟨.float32, x⟩ :: stack) [i] =
      (Scalar.onFloat op .float32 x y).toWord :: stack := by
  rw [onFloat_single]
  cases op with
  | max => exact absurd (.inl rfl) hext
  | min => exact absurd (.inr rfl) hext
  | add =>
    cases hi
    simp only [run_binary, BinaryOp.apply, DType.lane, Lane.format, read_single, Scalar.onDouble,
      ← Binary.Format.single_add]
    rfl
  | sub =>
    cases hi
    simp only [run_binary, BinaryOp.apply, DType.lane, Lane.format, read_single, Scalar.onDouble,
      ← Binary.Format.single_sub]
    rfl
  | mul =>
    cases hi
    simp only [run_binary, BinaryOp.apply, DType.lane, Lane.format, read_single, Scalar.onDouble,
      ← Binary.Format.single_mul]
    rfl
  | div =>
    cases hi
    simp only [run_binary, BinaryOp.apply, DType.lane, Lane.format, read_single, Scalar.onDouble,
      ← Binary.Format.single_div]
    rfl

theorem run_arith_double {name : String} {op : ArithOp} {i : Instr}
    (hext : ¬(op = .max ∨ op = .min)) (hi : arithInstr name op .float64 = .ok i)
    (slots : List (BitVec 64)) (stack : Stack) (x y : BitVec 64) :
    run slots (Scalar.toWord ⟨.float64, y⟩ :: Scalar.toWord ⟨.float64, x⟩ :: stack) [i] =
      (Scalar.onFloat op .float64 x y).toWord :: stack := by
  rw [onFloat_double]
  cases op with
  | max => exact absurd (.inl rfl) hext
  | min => exact absurd (.inr rfl) hext
  | add | sub | mul | div =>
    cases hi
    simp only [run_binary, BinaryOp.apply, DType.lane, Lane.format, read_double, Scalar.onDouble]
    rfl

theorem apply_fneg {t : DType} (ht : t.isFloat = true) (x : BitVec t.width) :
    (UnaryOp.fneg t.lane).apply (Scalar.toWord ⟨t, x⟩) = Scalar.toWord ⟨t, t.format.neg x⟩ := by
  refine (toWord_eq_word ?_).symm
  have hb : t ≠ .bool := by rintro rfl; cases ht
  rw [Binary.Format.neg, Binary.Format.neg, BitVec.toNat_xor, BitVec.toNat_xor, toNat_read_mk,
    BitVec.toNat_ofNat, BitVec.toNat_ofNat, DType.lane_format, DType.lane_width hb]

/-! ## Operations -/

variable (slots : List (BitVec 64)) (stack : Stack)

theorem run_arith_bool {name : String} {op : ArithOp} {i : Instr} {v : Scalar} {x y : BitVec 1}
    (hi : arithInstr name op .bool = .ok i) (hv : Scalar.onBool op .bool x y = .ok v) :
    run slots (Scalar.toWord ⟨.bool, y⟩ :: Scalar.toWord ⟨.bool, x⟩ :: stack) [i] =
      v.toWord :: stack := by
  cases op with
  | add | sub | mul | div => cases hv
  | max =>
    cases hi
    cases hv
    rw [run_binary]
    exact congrArg (· :: stack) (apply_imax_bool x y)
  | min =>
    cases hi
    cases hv
    rw [run_binary]
    exact congrArg (· :: stack) (apply_imin_bool x y)

theorem run_arith_int {name : String} {op : ArithOp} {i : Instr} {t : DType} {v : Scalar}
    {x y : BitVec t.width} (hb : t ≠ .bool) (hf : t.kind ≠ .float)
    (hi : arithInstr name op t = .ok i) (hv : Scalar.onInt op t x y = .ok v) :
    run slots (Scalar.toWord ⟨t, y⟩ :: Scalar.toWord ⟨t, x⟩ :: stack) [i] = v.toWord :: stack := by
  cases op with
  | div => cases hv
  | add | sub | mul | max | min =>
    simp only [arithInstr, Except.ok.injEq] at hi
    cases hv
    rw [← hi, run_binary]
    simp only [apply_iadd x y hb, apply_isub x y hb, apply_imul x y hb, apply_imax_toWord x y,
      apply_imin_toWord x y]

theorem run_arithInstr {name : String} {op : ArithOp} {a b v : Scalar} {i : Instr}
    (hab : a.dtype = b.dtype) (hext : op = .max ∨ op = .min → a.dtype.isFloat = false)
    (hi : arithInstr name op a.dtype = .ok i) (hv : a.binary op b = .ok v) :
    run slots (b.toWord :: a.toWord :: stack) [i] = v.toWord :: stack := by
  obtain ⟨t, x⟩ := a
  obtain ⟨u, y⟩ := b
  obtain rfl : t = u := hab
  rw [Scalar.binary, if_pos rfl] at hv
  simp only [Scalar.bitsAs, BitVec.setWidth_eq] at hv hi hext
  cases hk : t.kind with
  | bool =>
    obtain rfl := DType.kind_eq_bool.1 hk
    exact run_arith_bool slots stack hi hv
  | float =>
    have hf : t.isFloat = true := by simp [DType.isFloat, hk]
    have hno : ¬(op = .max ∨ op = .min) := fun h => by simp [hext h] at hf
    rw [hk] at hv
    cases hv
    rcases DType.eq_of_isFloat hf with rfl | rfl
    · exact run_arith_single hno hi slots stack x y
    · exact run_arith_double hno hi slots stack x y
  | signed | unsigned =>
    have hb : t ≠ .bool := by rintro rfl; cases hk
    rw [hk] at hv
    exact run_arith_int slots stack hb (by simp [hk]) hi hv

theorem run_compareInstr {c : Comparison} {a b : Scalar} {r : Bool} (hab : a.dtype = b.dtype)
    (hr : a.compare c b = .ok r) :
    run slots (b.toWord :: a.toWord :: stack) [compareInstr c a.dtype] = truth r :: stack := by
  obtain ⟨t, x⟩ := a
  obtain ⟨u, y⟩ := b
  obtain rfl : t = u := hab
  rw [Scalar.compare, if_pos rfl] at hr
  cases hr
  simp only [Scalar.bitsAs, BitVec.setWidth_eq]
  cases hf : t.isFloat with
  | true =>
    have hk : t.kind = .float := by simpa [DType.isFloat] using hf
    have hx := Scalar.value_toWord ⟨t, x⟩
    have hy := Scalar.value_toWord ⟨t, y⟩
    simp only [compareInstr, hf, if_true, run_binary, BinaryOp.apply, Binary.Format.compare,
      Scalar.order?, hk, hx, hy]
    rfl
  | false =>
    have hk : t.kind ≠ .float := by simpa [DType.isFloat] using hf
    simp only [compareInstr, hf, Bool.false_eq_true, if_false, run_binary, BinaryOp.apply,
      readInt_mk, Scalar.order?]

theorem run_negInstr {a v : Scalar} {i : Instr} (hi : negInstr a.dtype = .ok i)
    (hv : a.neg = .ok v) : run slots (a.toWord :: stack) [i] = v.toWord :: stack := by
  obtain ⟨t, x⟩ := a
  unfold negInstr at hi
  unfold Scalar.neg at hv
  cases hk : t.kind with
  | bool => simp [hk] at hi
  | float =>
    simp only [hk, Except.ok.injEq] at hi hv
    rw [← hi, ← hv, run_unary, apply_fneg (by simp [DType.isFloat, hk])]
  | signed | unsigned =>
    simp only [hk, Except.ok.injEq] at hi hv
    rw [← hi, ← hv, run_unary, apply_ineg x (by rintro rfl; cases hk)]

theorem exists_toWord_eq_word {t : DType} (ht : t.isFloat = true) (x : BitVec t.lane.width) :
    ∃ v : Scalar, v.dtype = t ∧ v.toWord = word x := by
  rcases DType.eq_of_isFloat ht with rfl | rfl
  · exact ⟨⟨.float32, x⟩, rfl, rfl⟩
  · exact ⟨⟨.float64, x⟩, rfl, rfl⟩

theorem exists_run_float_extremum {name : String} {op : ArithOp} {a : Scalar} {y : BitVec 64}
    {i : Instr} (hop : op = .max ∨ op = .min) (hfloat : a.dtype.isFloat = true)
    (hi : arithInstr name op a.dtype = .ok i) :
    ∃ v : Scalar, v.dtype = a.dtype ∧
      ∀ slots stack, run slots (y :: a.toWord :: stack) [i] = v.toWord :: stack := by
  have hkind : a.dtype.kind = .float := by simpa [DType.isFloat] using hfloat
  let x := a.dtype.lane.read a.toWord
  let y := a.dtype.lane.read y
  rcases hop with rfl | rfl
  · obtain ⟨v, hv, hword⟩ := exists_toWord_eq_word hfloat (a.dtype.lane.format.maximum x y)
    simp only [arithInstr, hkind, Except.ok.injEq] at hi
    exact ⟨v, hv, fun slots stack => by rw [← hi, run_binary, hword]; rfl⟩
  · obtain ⟨v, hv, hword⟩ := exists_toWord_eq_word hfloat (a.dtype.lane.format.minimum x y)
    simp only [arithInstr, hkind, Except.ok.injEq] at hi
    exact ⟨v, hv, fun slots stack => by rw [← hi, run_binary, hword]; rfl⟩

theorem exists_run_arithInstr {name : String} {op : ArithOp} {a b : Scalar} {i : Instr}
    (hab : a.dtype = b.dtype) (hallows : op.Allows a.dtype)
    (hi : arithInstr name op a.dtype = .ok i) :
    ∃ v : Scalar, v.dtype = a.dtype ∧
      (∀ slots stack, run slots (b.toWord :: a.toWord :: stack) [i] = v.toWord :: stack) ∧
      ((op = .max ∨ op = .min → a.dtype.isFloat = false) → a.binary op b = .ok v) := by
  by_cases hext : op = .max ∨ op = .min → a.dtype.isFloat = false
  · obtain ⟨v, hv, hdtype⟩ := Scalar.binary_eq_ok hab hallows
    exact ⟨v, hdtype, fun slots stack => run_arithInstr slots stack hab hext hi hv, fun _ => hv⟩
  · obtain ⟨hop, hfloat⟩ := Classical.not_imp.1 hext
    obtain ⟨v, hdtype, hrun⟩ := exists_run_float_extremum (y := b.toWord) hop
      (by simpa using hfloat) hi
    exact ⟨v, hdtype, hrun, fun h => absurd h hext⟩

end Native

end Pointwise

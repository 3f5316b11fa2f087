import Mathlib.Data.Int.ModEq
import Pointwise.Proofs.Binary.Rounding
import Pointwise.Proofs.Native.Cast

/-!
# What conversions compute

The numbers of converted elements, and that the code of a conversion gives their words. Integers
wrap, floating-point numbers lose their fraction and are kept within the range, and every element
but the zeros is true.
-/

namespace Pointwise

/-! ## Whole parts -/

/-- A number without its fraction, whatever its sign. -/
def Binary.Value.wholePart (q : Rat) : Int := q.num.tdiv q.den

theorem Binary.Value.wholePart_signed {q : Rat} (hq : 0 ≤ q) (negative : Bool) :
    wholePart (signed negative q) = if negative then -q.floor else q.floor := by
  have hfloor : q.num.tdiv q.den = q.floor := by
    rw [Rat.floor_def, Int.tdiv_eq_ediv_of_nonneg (Rat.num_nonneg.2 hq)]
  cases negative with
  | false => exact hfloor
  | true =>
    show (-q).num.tdiv (-q).den = -q.floor
    rw [Rat.neg_num, Rat.neg_den, Int.neg_tdiv, hfloor]

theorem DType.ofInt_toInt (t : DType) (x : BitVec t.width) :
    BitVec.ofInt t.width (t.toInt x) = x := by
  unfold DType.toInt
  split
  · exact BitVec.ofInt_toInt
  · rw [BitVec.ofInt_natCast, BitVec.ofNat_toNat, BitVec.setWidth_eq]

namespace Scalar

open Native

variable {s : Scalar} {t : DType}

theorem magnitude_of_toValue {negative : Bool} {q : Rat} (h : s.toValue = .finite negative q) :
    0 ≤ q := by
  unfold toValue Binary.Format.value Binary.Format.decode at h
  dsimp only at h
  split at h
  · cases h
  · split at h
    · cases h
    · cases h
      exact Binary.Format.magnitude_nonneg _

/-! ## Integers -/

theorem toInt_range (h : s.dtype.isInteger = true) :
    s.dtype.least ≤ s.toInt ∧ s.toInt ≤ s.dtype.greatest := by
  have hfits := s.fits_toInt
  unfold Lane.Fits at hfits
  rwa [DType.lane_least, DType.lane_greatest h] at hfits

theorem toInt_ofInt (ht : t.isInteger = true) {n : Int} (hlow : t.least ≤ n)
    (hhigh : n ≤ t.greatest) : (ofInt n t).toInt = n := by
  have hfits : t.lane.Fits t.isSigned n := by
    unfold Lane.Fits
    rw [DType.lane_least, DType.lane_greatest ht]
    exact ⟨hlow, hhigh⟩
  have hread := (ofInt n t).readInt_toWord
  rwa [dtype_ofInt, toWord_ofInt ht, Lane.readInt_word_ofInt hfits, eq_comm] at hread

theorem ofInt_of_isInteger (ht : t.isInteger = true) (n : Int) :
    ofInt n t = ⟨t, BitVec.ofInt t.width n⟩ := by
  cases t with
  | bool | float32 | float64 => cases ht
  | int8 | int16 | int32 | int64 | uint8 | uint16 | uint32 | uint64 => rfl

theorem ofInt_toInt_of_dtype (ht : t.isInteger = true) (hs : s.dtype = t) :
    ofInt s.toInt t = s := by
  obtain ⟨u, x⟩ := s
  subst hs
  rw [ofInt_of_isInteger ht]
  exact congrArg (Scalar.mk u) (u.ofInt_toInt x)

theorem toInt_ofInt_modEq (ht : t.isInteger = true) (n : Int) :
    (ofInt n t).toInt ≡ n [ZMOD (2 ^ t.width : Nat)] := by
  have hpos : (0 : Int) < (2 ^ t.width : Nat) := by exact_mod_cast Nat.two_pow_pos t.width
  rw [ofInt_of_isInteger ht]
  show t.toInt (BitVec.ofInt t.width n) % _ = n % _
  unfold DType.toInt
  split
  · rw [BitVec.toInt_ofInt, Int.bmod_emod]
  · rw [BitVec.toNat_ofInt, Int.toNat_of_nonneg (Int.emod_nonneg _ hpos.ne'), Int.emod_emod]

theorem toInt_cast_modEq (hs : s.dtype.isFloat = false) (ht : t.isInteger = true) :
    (s.cast t).toInt ≡ s.toInt [ZMOD (2 ^ t.width : Nat)] := by
  by_cases hne : s.dtype = t
  · rw [cast_of_dtype hne]
  · rw [cast_of_not_float hne hs]
    exact toInt_ofInt_modEq ht s.toInt

/-! ## Floating-point numbers -/

theorem toInt_cast_of_float (hs : s.dtype.isFloat = true) (ht : t.isInteger = true) :
    (s.cast t).toInt = s.toValue.truncateWithin t.least t.greatest := by
  have hne : s.dtype ≠ t := by
    rintro rfl
    rw [DType.isFloat_of_isInteger ht] at hs
    cases hs
  have hofInt : ofValue s.toValue t = ofInt (s.toValue.truncateWithin t.least t.greatest) t := by
    cases t with
    | bool | float32 | float64 => cases ht
    | int8 | int16 | int32 | int64 | uint8 | uint16 | uint32 | uint64 => rfl
  obtain ⟨hlow, hhigh⟩ := fits_truncateWithin t.lane t.isSigned s.toValue
  rw [DType.lane_least, DType.lane_greatest ht] at hlow hhigh
  rw [cast_of_float hne hs, hofInt, toInt_ofInt ht hlow hhigh]

/-! ## Truth values -/

/-- Whether an element is a zero. What is no number is none. -/
def IsZero (s : Scalar) : Prop :=
  if s.dtype.isFloat then ∃ negative, s.toValue = .finite negative 0 else s.toInt = 0

instance (s : Scalar) : Decidable s.IsZero :=
  inferInstanceAs (Decidable
    (if s.dtype.isFloat then ∃ negative, s.toValue = .finite negative 0 else s.toInt = 0))

theorem toInt_bool (b : Bool) : (bool b).toInt = b.toNat := by cases b <;> rfl

theorem eq_bool_of_dtype (h : s.dtype = .bool) : ∃ b, s = bool b := by
  obtain ⟨_, x⟩ := s
  subst h
  refine ⟨x.getLsbD 0, ?_⟩
  rcases BitVec.eq_zero_or_eq_one x with rfl | rfl <;> rfl

theorem bool_of_iff {p : Prop} [Decidable p] (h : s.IsZero ↔ p) :
    (⟨.bool, BitVec.ofNat _ (if p then 0 else 1)⟩ : Scalar) = bool !decide s.IsZero := by
  by_cases hp : p
  · rw [if_pos hp, decide_eq_true (h.2 hp)]
    rfl
  · rw [if_neg hp, decide_eq_false (h.not.2 hp)]
    rfl

theorem cast_bool (s : Scalar) : s.cast .bool = bool !decide s.IsZero := by
  by_cases hs : s.dtype.isFloat = true
  case pos =>
    have hne : s.dtype ≠ .bool := by
      intro hbool
      rw [hbool] at hs
      cases hs
    have hzero : s.IsZero ↔ s.toValue = .finite false 0 ∨ s.toValue = .finite true 0 := by
      unfold IsZero
      rw [if_pos hs]
      simp
    rw [cast_of_float hne hs]
    exact bool_of_iff hzero
  case neg =>
    have hzero : s.IsZero ↔ s.toInt = 0 := by
      unfold IsZero
      rw [if_neg hs]
    by_cases hbool : s.dtype = .bool
    · obtain ⟨b, rfl⟩ := eq_bool_of_dtype hbool
      rw [toInt_bool] at hzero
      have hdecide : decide (bool b).IsZero = !b := by
        rw [Bool.eq_iff_iff, decide_eq_true_iff, hzero]
        cases b <;> decide
      rw [hdecide, Bool.not_not]
      exact cast_self _
    · rw [cast_of_not_float hbool (by simpa using hs)]
      exact bool_of_iff hzero

/-! ## Values on their own -/

theorem isTruthy_eq (s : Scalar) : s.isTruthy = !decide s.IsZero := by
  unfold isTruthy
  rw [s.cast_bool]
  cases decide s.IsZero <;> rfl

theorem valueAs_eq_cast (s : Scalar) (t : DType) : s.valueAs t = s.cast t := by
  unfold valueAs
  by_cases ht : t = .bool
  · rw [if_pos ht, ht, s.cast_bool, s.isTruthy_eq]
  rw [if_neg ht, cast]
  by_cases hs : s.dtype.isFloat = true
  · rw [if_pos hs, if_pos hs]
  rw [if_neg hs, if_neg hs]
  by_cases hself : s.dtype = t
  · rw [if_pos hself]
    have hfloat : t.isFloat = false := by
      rw [← hself]
      simpa using hs
    exact ofInt_toInt_of_dtype (DType.isInteger_of_not_float hfloat ht) hself
  · rw [if_neg hself]

end Scalar

namespace Native

/--
The code of a conversion takes the word of an element to that of the converted element, whatever
else is on the stack. Among the integers what is lost is a multiple of the number of elements. A
number becomes its whole part, kept within the range of the type, and what is no number becomes 0.
An integer becomes a floating-point number by its value alone. All but the zeros becomes true, also
what is no number.
-/
theorem castCode_converts (slots : List (BitVec 64)) (stack : Stack) (s : Scalar) (t : DType) :
    run slots (s.toWord :: stack) (castCode s.dtype t) = (s.cast t).toWord :: stack ∧
    (t.isInteger = true → t.least ≤ (s.cast t).toInt ∧ (s.cast t).toInt ≤ t.greatest) ∧
    (s.dtype.isFloat = false → t.isInteger = true →
      (s.cast t).toInt ≡ s.toInt [ZMOD (2 ^ t.width : Nat)]) ∧
    (s.dtype.isFloat = true → t.isInteger = true →
      (s.toValue = .nan → (s.cast t).toInt = 0) ∧
      (∀ negative, s.toValue = .infinite negative →
        (s.cast t).toInt = if negative then t.least else t.greatest) ∧
      ∀ negative q, s.toValue = .finite negative q → (s.cast t).toInt =
        max t.least (min t.greatest (Binary.Value.wholePart (Binary.Value.signed negative q)))) ∧
    (s.dtype.isFloat = false → t.isFloat = true → ∀ r : Scalar, r.dtype.isFloat = false →
      r.toInt = s.toInt → r.cast t = s.cast t) ∧
    (s.cast .bool = .bool !decide s.IsZero) ∧
    (s.dtype.isFloat = true → s.toValue = .nan → s.cast .bool = .bool true) := by
  refine ⟨run_castCode slots stack s t, ?range, Scalar.toInt_cast_modEq, ?whole, ?byValue,
    s.cast_bool, ?noNumber⟩
  case range =>
    intro ht
    have hrange := (s.cast t).toInt_range
    rw [Scalar.dtype_cast] at hrange
    exact hrange ht
  case whole =>
    intro hs ht
    rw [Scalar.toInt_cast_of_float hs ht]
    refine ⟨fun hv => ?_, fun negative hv => ?_, fun negative q hv => ?_⟩
    · rw [hv]
      rfl
    · rw [hv]
      rfl
    · rw [hv, Binary.Value.wholePart_signed (Scalar.magnitude_of_toValue hv)]
      rfl
  case byValue =>
    intro hs ht r hr hvalue
    have hne {x : Scalar} (hx : x.dtype.isFloat = false) : x.dtype ≠ t := by
      rintro rfl
      rw [hx] at ht
      cases ht
    rw [Scalar.cast_of_not_float (hne hr) hr, Scalar.cast_of_not_float (hne hs) hs, hvalue]
  case noNumber =>
    intro hs hv
    rw [s.cast_bool, decide_eq_false]
    · rfl
    · unfold Scalar.IsZero
      rw [if_pos hs, hv]
      rintro ⟨_, ⟨⟩⟩

/-- A number below the range, a pattern that is no number, and integers of two types. -/
theorem castCode_converts_extremes :
    run [] [(Scalar.float64 0xc072c80000000000).toWord] (castCode .float64 .int8) =
        [((Scalar.float64 0xc072c80000000000).cast .int8).toWord] ∧
      (Scalar.float64 0xc072c80000000000).toValue = .finite true (601 / 2) ∧
      ((Scalar.float64 0xc072c80000000000).cast .int8).toInt = -128 ∧
      (Scalar.float64 0xfff8000000000001).toValue = .nan ∧
      ((Scalar.float64 0xfff8000000000001).cast .uint16).toInt = 0 ∧
      (Scalar.float64 0xfff8000000000001).cast .bool = .bool true ∧
      ((Scalar.int64 (-300)).cast .uint8).toInt ≡ -300 [ZMOD 256] ∧
      (Scalar.ofInt 1 .uint8).cast .float32 = (Scalar.bool true).cast .float32 := by
  have hbelow : (Scalar.float64 0xc072c80000000000).toValue = .finite true (601 / 2) := by
    decide +kernel
  have hnan : (Scalar.float64 0xfff8000000000001).toValue = .nan := by decide +kernel
  obtain ⟨hrun, -, -, hwhole, -⟩ :=
    castCode_converts [] [] (Scalar.float64 0xc072c80000000000) .int8
  obtain ⟨-, -, -, hnumber, -, -, htrue⟩ :=
    castCode_converts [] [] (Scalar.float64 0xfff8000000000001) .uint16
  obtain ⟨-, -, hwrap, -⟩ := castCode_converts [] [] (Scalar.int64 (-300)) .uint8
  obtain ⟨-, -, -, -, hvalue, -⟩ := castCode_converts [] [] (Scalar.bool true) .float32
  have hleast := (hwhole rfl rfl).2.2 true (601 / 2) hbelow
  refine ⟨hrun, hbelow, ?_, hnan, (hnumber rfl rfl).1 hnan, htrue rfl hnan, hwrap rfl rfl,
    hvalue rfl rfl (.ofInt 1 .uint8) rfl rfl⟩
  rw [hleast]
  decide +kernel

end Native

end Pointwise

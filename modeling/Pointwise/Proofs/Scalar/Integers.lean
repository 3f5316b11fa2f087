import Pointwise.Proofs.Native.Conversion

/-!
# Numbers of integer elements

An element of a type of integers is determined by its number modulo the number of elements of the
type. A conversion between integers and truth values is safe exactly if it changes no number.
-/

namespace Pointwise

theorem modEq_of_width_le {m n : Int} {v w : Nat} (h : w ≤ v) (hmod : m ≡ n [ZMOD (2 ^ v : Nat)]) :
    m ≡ n [ZMOD (2 ^ w : Nat)] :=
  hmod.of_dvd (Int.natCast_dvd_natCast.2 (Nat.pow_dvd_pow 2 h))

namespace DType

variable {s s' t : DType}

theorem promote_self (t : DType) : t.promote t = t := by cases t <;> rfl

theorem castsSafely_promote (s s' : DType) :
    s.castsSafely (s.promote s') = true ∧ s'.castsSafely (s.promote s') = true := by
  cases s <;> cases s' <;> decide

theorem of_castsSafely (h : s.castsSafely t = true) (ht : t.isFloat = false) :
    s.isFloat = false ∧ s.width ≤ t.width ∧ (s.isInteger = true → t.isInteger = true) := by
  revert h ht
  cases s <;> cases t <;> decide

theorem castsSafely_iff_range (hs : s.isFloat = false) (ht : t.isFloat = false) :
    s.castsSafely t = true ↔ t.least ≤ s.least ∧ s.greatest ≤ t.greatest := by
  revert hs ht
  cases s <;> cases t <;> decide

theorem least_le_greatest (t : DType) : t.least ≤ t.greatest := by cases t <;> decide

end DType

/-- What a comparison says of two integers. -/
def Binary.Comparison.Relates : Binary.Comparison → Int → Int → Prop
  | .eq, m, n => m = n
  | .ne, m, n => m ≠ n
  | .lt, m, n => m < n
  | .le, m, n => m ≤ n
  | .gt, m, n => n < m
  | .ge, m, n => n ≤ m

instance : (c : Binary.Comparison) → (m n : Int) → Decidable (c.Relates m n)
  | .eq, m, n => inferInstanceAs (Decidable (m = n))
  | .ne, m, n => inferInstanceAs (Decidable (m ≠ n))
  | .lt, m, n => inferInstanceAs (Decidable (m < n))
  | .le, m, n => inferInstanceAs (Decidable (m ≤ n))
  | .gt, m, n => inferInstanceAs (Decidable (n < m))
  | .ge, m, n => inferInstanceAs (Decidable (n ≤ m))

theorem Binary.Comparison.holds_compare (c : Binary.Comparison) (m n : Int) :
    c.holds (some (compare m n)) = decide (c.Relates m n) := by
  rw [Bool.eq_iff_iff, decide_eq_true_iff]
  rcases Int.lt_trichotomy m n with h | h | h
  · rw [compare_lt_iff_lt.2 h]
    cases c <;> simp [holds, Relates] <;> omega
  · rw [compare_eq_iff_eq.2 h]
    cases c <;> simp [holds, Relates] <;> omega
  · rw [compare_gt_iff_gt.2 h]
    cases c <;> simp [holds, Relates] <;> omega

/-- What an operation computes on integers, which have no quotients here. -/
def ArithOp.onIntegers : ArithOp → Int → Int → Int
  | .add, m, n => m + n
  | .sub, m, n => m - n
  | .mul, m, n => m * n
  | .max, m, n => Max.max m n
  | .min, m, n => Min.min m n
  | .div, _, _ => 0

namespace Scalar

variable {s : Scalar} {t : DType}

/-! ## Ranges -/

theorem range_of_not_float (h : s.dtype.isFloat = false) :
    s.dtype.least ≤ s.toInt ∧ s.toInt ≤ s.dtype.greatest := by
  by_cases hbool : s.dtype = .bool
  case pos =>
    obtain ⟨b, rfl⟩ := eq_bool_of_dtype hbool
    cases b <;> decide
  case neg => exact toInt_range (DType.isInteger_of_not_float h hbool)

theorem toInt_ofInt_of_range (ht : t.isFloat = false) {n : Int} (hlow : t.least ≤ n)
    (hhigh : n ≤ t.greatest) : (ofInt n t).toInt = n := by
  by_cases hbool : t = .bool
  case pos =>
    subst hbool
    have hlow' : 0 ≤ n := hlow
    have hhigh' : n ≤ 1 := hhigh
    obtain rfl | rfl : n = 0 ∨ n = 1 := by omega
    · rfl
    · rfl
  case neg => exact toInt_ofInt (DType.isInteger_of_not_float ht hbool) hlow hhigh

/-! ## Numbers modulo the number of elements -/

theorem ofInt_congr (ht : t.isInteger = true) {m n : Int} (h : m ≡ n [ZMOD (2 ^ t.width : Nat)]) :
    ofInt m t = ofInt n t := by
  rw [ofInt_of_isInteger ht, ofInt_of_isInteger ht]
  refine congrArg (Scalar.mk t) (BitVec.eq_of_toInt_eq ?_)
  have hmod : m % (2 ^ t.width : Nat) = n % (2 ^ t.width : Nat) := h
  rw [BitVec.toInt_ofInt, BitVec.toInt_ofInt, ← Int.emod_bmod m, hmod, Int.emod_bmod]

theorem eq_ofInt_iff (ht : t.isInteger = true) {n : Int} :
    s = ofInt n t ↔ s.dtype = t ∧ s.toInt ≡ n [ZMOD (2 ^ t.width : Nat)] := by
  constructor
  · rintro rfl
    exact ⟨dtype_ofInt n t, toInt_ofInt_modEq ht n⟩
  · rintro ⟨hs, hmod⟩
    rw [← ofInt_toInt_of_dtype ht hs]
    exact ofInt_congr ht hmod

theorem cast_eq_ofInt (hs : s.dtype.isFloat = false) (ht : t.isInteger = true) :
    s.cast t = ofInt s.toInt t :=
  (eq_ofInt_iff ht).2 ⟨dtype_cast s t, toInt_cast_modEq hs ht⟩

theorem cast_cast_of_width_le {u : DType} (hs : s.dtype.isFloat = false)
    (hu : u.isInteger = true) (ht : t.isInteger = true) (hwidth : t.width ≤ u.width) :
    (s.cast u).cast t = s.cast t := by
  have hcast : (s.cast u).dtype.isFloat = false := by
    rw [dtype_cast]
    exact DType.isFloat_of_isInteger hu
  rw [cast_eq_ofInt hcast ht, cast_eq_ofInt hs ht]
  exact ofInt_congr ht (modEq_of_width_le hwidth (toInt_cast_modEq hs hu))

/-! ## Operations -/

theorem neg_eq_ofInt (ht : t.isInteger = true) (hs : s.dtype = t) :
    s.neg = .ok (ofInt (-s.toInt) t) := by
  obtain ⟨u, x⟩ := s
  obtain rfl : t = u := hs.symm
  have hneg : neg ⟨t, x⟩ = .ok ⟨t, -x⟩ := by
    cases t with
    | bool | float32 | float64 => cases ht
    | int8 | int16 | int32 | int64 | uint8 | uint16 | uint32 | uint64 => rfl
  have hbits : BitVec.ofInt t.width (-t.toInt x) = -x := by rw [BitVec.ofInt_neg, t.ofInt_toInt]
  rw [hneg, ofInt_of_isInteger ht]
  exact congrArg (fun y => Except.ok (Scalar.mk t y)) hbits.symm

theorem onInt_eq_ofInt {op : ArithOp} (hop : op ≠ .div) (ht : t.isInteger = true)
    (x y : BitVec t.width) :
    onInt op t x y = .ok (ofInt (op.onIntegers (t.toInt x) (t.toInt y)) t) := by
  rw [ofInt_of_isInteger ht]
  cases op with
  | div => exact absurd rfl hop
  | add => rw [onInt, ArithOp.onIntegers, BitVec.ofInt_add, t.ofInt_toInt, t.ofInt_toInt]
  | sub =>
    rw [onInt, ArithOp.onIntegers, Int.sub_eq_add_neg, BitVec.ofInt_add, BitVec.ofInt_neg,
      t.ofInt_toInt, t.ofInt_toInt, BitVec.sub_eq_add_neg]
  | mul => rw [onInt, ArithOp.onIntegers, BitVec.ofInt_mul, t.ofInt_toInt, t.ofInt_toInt]
  | max =>
    rw [onInt, ArithOp.onIntegers, Int.max_def]
    split <;> rw [t.ofInt_toInt]
  | min =>
    rw [onInt, ArithOp.onIntegers, Int.min_def]
    by_cases h : t.toInt x ≤ t.toInt y
    · rw [if_pos h, if_neg (Int.not_lt.2 h), t.ofInt_toInt]
    · rw [if_neg h, if_pos (Int.not_le.1 h), t.ofInt_toInt]

theorem binary_eq_ofInt {op : ArithOp} (hop : op ≠ .div) (ht : t.isInteger = true) {x y : Scalar}
    (hx : x.dtype = t) (hy : y.dtype = t) :
    x.binary op y = .ok (ofInt (op.onIntegers x.toInt y.toInt) t) := by
  obtain ⟨s, x⟩ := x
  obtain ⟨s', y⟩ := y
  obtain rfl : t = s := hx.symm
  obtain rfl : t = s' := hy.symm
  have hbits : bitsAs ⟨t, y⟩ t = y := bitsAs_self _
  have honInt : binary op ⟨t, x⟩ ⟨t, y⟩ = onInt op t x y := by
    unfold binary
    dsimp only
    rw [if_pos rfl, hbits]
    cases t with
    | bool | float32 | float64 => cases ht
    | int8 | int16 | int32 | int64 | uint8 | uint16 | uint32 | uint64 => rfl
  rw [honInt]
  exact onInt_eq_ofInt hop ht x y

/-! ## Order -/

theorem compare_of_not_float (c : Binary.Comparison) {x y : Scalar} (hxy : x.dtype = y.dtype)
    (hfloat : x.dtype.isFloat = false) :
    x.compare c y = .ok (decide (c.Relates x.toInt y.toInt)) := by
  obtain ⟨t, x⟩ := x
  obtain ⟨u, y⟩ := y
  obtain rfl : t = u := hxy
  have hbits : bitsAs ⟨t, y⟩ t = y := bitsAs_self _
  have horder : order? t x y = some (Ord.compare (t.toInt x) (t.toInt y)) := by
    cases t with
    | float32 | float64 => cases hfloat
    | _ => rfl
  unfold compare
  rw [if_pos rfl]
  dsimp only
  rw [hbits, horder, Binary.Comparison.holds_compare]
  rfl

theorem exists_extremum {op : ArithOp} (hop : op = .max ∨ op = .min) {x y : Scalar}
    (hx : x.dtype = t) (hy : y.dtype = t) (hfloat : t.isFloat = false) :
    ∃ r, x.binary op y = .ok r ∧ r.dtype = t ∧ r.toInt = op.onIntegers x.toInt y.toInt := by
  by_cases hbool : t = .bool
  case pos =>
    subst hbool
    obtain ⟨b, rfl⟩ := eq_bool_of_dtype hx
    obtain ⟨c, rfl⟩ := eq_bool_of_dtype hy
    rcases hop with rfl | rfl
    · refine ⟨bool (b || c), ?_, rfl, ?_⟩ <;> cases b <;> cases c <;> rfl
    · refine ⟨bool (b && c), ?_, rfl, ?_⟩ <;> cases b <;> cases c <;> rfl
  case neg =>
    have ht := DType.isInteger_of_not_float hfloat hbool
    have hdiv : op ≠ .div := by rcases hop with rfl | rfl <;> decide
    refine ⟨_, binary_eq_ofInt hdiv ht hx hy, dtype_ofInt _ t, ?_⟩
    have hxrange := toInt_range (hx ▸ ht)
    have hyrange := toInt_range (hy ▸ ht)
    rw [hx] at hxrange
    rw [hy] at hyrange
    -- Each extremum is one of the two numbers, which are in the range.
    apply toInt_ofInt ht
    · rcases hop with rfl | rfl
      · exact le_max_of_le_left hxrange.1
      · exact Int.le_min.2 ⟨hxrange.1, hyrange.1⟩
    · rcases hop with rfl | rfl
      · exact Int.max_le.2 ⟨hxrange.2, hyrange.2⟩
      · exact min_le_of_left_le hxrange.2

/-! ## Safe conversions -/

theorem toInt_cast_of_castsSafely (hs : s.dtype.isFloat = false) (ht : t.isFloat = false)
    (h : s.dtype.castsSafely t = true) : (s.cast t).toInt = s.toInt := by
  by_cases hne : s.dtype = t
  · rw [cast_of_dtype hne]
  · obtain ⟨hlow, hhigh⟩ := range_of_not_float hs
    obtain ⟨hleast, hgreatest⟩ := (DType.castsSafely_iff_range hs ht).1 h
    rw [cast_of_not_float hne hs]
    exact toInt_ofInt_of_range ht (hleast.trans hlow) (hhigh.trans hgreatest)

theorem castsSafely_of_toInt_cast {s : DType} (hs : s.isFloat = false) (ht : t.isFloat = false)
    (h : ∀ v : Scalar, v.dtype = s → (v.cast t).toInt = v.toInt) : s.castsSafely t = true := by
  -- The least and the greatest number are kept, so both are in the range of the other type.
  have hrange {n : Int} (hlow : s.least ≤ n) (hhigh : n ≤ s.greatest) :
      t.least ≤ n ∧ n ≤ t.greatest := by
    have hkept := h (ofInt n s) (dtype_ofInt n s)
    rw [toInt_ofInt_of_range hs hlow hhigh] at hkept
    have hcast := range_of_not_float (s := (ofInt n s).cast t) (by rwa [dtype_cast])
    rwa [hkept, dtype_cast] at hcast
  have hle := s.least_le_greatest
  exact (DType.castsSafely_iff_range hs ht).2
    ⟨(hrange (Int.le_refl _) hle).1, (hrange hle (Int.le_refl _)).2⟩

theorem toInt_cast_promote {x y : Scalar} (h : (x.dtype.promote y.dtype).isFloat = false) :
    (x.cast (x.dtype.promote y.dtype)).toInt = x.toInt ∧
      (y.cast (x.dtype.promote y.dtype)).toInt = y.toInt := by
  obtain ⟨hx, hy⟩ := DType.castsSafely_promote x.dtype y.dtype
  exact ⟨toInt_cast_of_castsSafely (DType.of_castsSafely hx h).1 h hx,
    toInt_cast_of_castsSafely (DType.of_castsSafely hy h).1 h hy⟩

/--
A truth value or an integer converted to a type of integers is the one element whose number is
congruent modulo the number of elements of the type, so that it may be converted to a wider type
first. Among truth values and integers the safe conversions are those that change no number.
-/
theorem cast_integers :
    (∀ (s : Scalar) (t : DType), s.dtype.isFloat = false → t.isInteger = true → ∀ r : Scalar,
      r = s.cast t ↔ r.dtype = t ∧ r.toInt ≡ s.toInt [ZMOD (2 ^ t.width : Nat)]) ∧
    (∀ (s : Scalar) (u t : DType), s.dtype.isFloat = false → u.isInteger = true →
      t.isInteger = true → t.width ≤ u.width → (s.cast u).cast t = s.cast t) ∧
    ∀ s t : DType, s.isFloat = false → t.isFloat = false →
      (s.castsSafely t = true ↔ ∀ v : Scalar, v.dtype = s → (v.cast t).toInt = v.toInt) := by
  refine ⟨?congruent, ?wider, ?safe⟩
  case congruent =>
    intro s t hs ht r
    rw [cast_eq_ofInt hs ht]
    exact eq_ofInt_iff ht
  case wider => exact fun s u t => cast_cast_of_width_le
  case safe =>
    intro s t hs ht
    refine ⟨fun h v hv => ?_, castsSafely_of_toInt_cast hs ht⟩
    subst hv
    exact toInt_cast_of_castsSafely hs ht h

/-- A negative number as one without a sign, at once and by way of more bits. -/
theorem cast_integers_negative :
    ((ofInt (-2) .int16).cast .uint8).toInt = 254 ∧
      ((ofInt (-2) .int16).cast .uint32).cast .uint8 = (ofInt (-2) .int16).cast .uint8 ∧
      ofInt 254 .uint8 = (ofInt (-2) .int16).cast .uint8 ∧
      DType.castsSafely .uint8 .int16 = true ∧
      ((ofInt 254 .uint8).cast .int16).toInt = (ofInt 254 .uint8).toInt := by
  obtain ⟨hcongruent, hwider, hsafe⟩ := cast_integers
  have hone : ofInt 254 .uint8 = (ofInt (-2) .int16).cast .uint8 :=
    (hcongruent (ofInt (-2) .int16) .uint8 rfl rfl _).2 ⟨rfl, by decide⟩
  refine ⟨by rw [← hone]; rfl, hwider _ .uint32 .uint8 rfl rfl rfl (by decide), hone, rfl, ?_⟩
  exact (hsafe .uint8 .int16 rfl rfl).1 rfl (ofInt 254 .uint8) rfl

end Scalar

end Pointwise

import Mathlib.Algebra.Order.Ring.Abs
import Pointwise.Proofs.Binary.Rounding

/-!
# Single precision by way of double precision

A sum, a product or a quotient of two single-precision numbers may be rounded to double precision
first. If the exact result is no midpoint of single precision, then it is too far from all of them
to be rounded onto one.
-/

namespace Pointwise.Binary.Format

/-! ## Single-precision numbers and their midpoints -/

theorem single_grid {k : Nat} (hk : k < single.infinity) :
    ∃ (S : Nat) (e : Int), S < 2 ^ 24 ∧ -149 ≤ e ∧ e ≤ 104 ∧
      single.magnitude k = scaled S e ∧ single.gap k = scaled 1 e := by
  obtain ⟨E, S, rfl, hS, hE⟩ := exists_grid single k
  have hu : single.unit = 2 ^ 23 := by decide
  have ht : single.infinity = 255 * 2 ^ 23 := by decide
  have hm : single.minExponent = -149 := by decide
  rw [hu] at hS hE hk
  rw [ht] at hk
  refine ⟨S, single.minExponent + E, by omega, by omega, by omega, ?_, ?_⟩
  · exact magnitude_grid (by rw [hu]; omega) (by rwa [hu])
  · exact gap_grid (by rwa [hu]) (by rwa [hu])

/-- The middle between a single-precision number and the next one. -/
def middle (k : Nat) : Rat := (single.magnitude k + single.magnitude (k + 1)) / 2

theorem middle_grid {k : Nat} (hk : k < single.infinity) :
    ∃ (c : Nat) (g : Int), 0 < c ∧ c < 2 ^ 25 ∧ -150 ≤ g ∧ g ≤ 103 ∧ middle k = scaled c g ∧
      single.gap k = 2 * scaled 1 g := by
  obtain ⟨S, e, hS, hlow, hhigh, hval, hgap⟩ := single_grid hk
  have hstep : scaled 1 e = 2 * scaled 1 (e - 1) := by
    have := scaled_two_mul 1 (e - 1)
    rw [sub_add_cancel] at this
    rw [← this]
    unfold scaled; push_cast; ring
  refine ⟨2 * S + 1, e - 1, by omega, by omega, by omega, by omega, ?_, by rw [hgap, hstep]⟩
  have hnext : single.magnitude (k + 1) = single.magnitude k + single.gap k := by unfold gap; ring
  have hS2 : scaled S e = 2 * S * scaled 1 (e - 1) := by
    have : scaled S e = S * scaled 1 e := by unfold scaled; push_cast; ring
    rw [this, hstep]; ring
  rw [middle, hnext, hgap, hval, hS2, hstep]
  unfold scaled; push_cast; ring

theorem gap_le_abs_sub_middle (i k : Nat) : single.gap k / 2 ≤ |single.magnitude i - middle k| := by
  rcases Nat.lt_or_ge k i with h | h
  · have := magnitude_strictMono (f := single).monotone (Nat.succ_le_of_lt h)
    refine le_trans ?_ (le_abs_self _)
    unfold gap middle
    simp only [Nat.succ_eq_add_one] at this
    linarith
  · have := magnitude_strictMono (f := single).monotone h
    refine le_trans ?_ (neg_le_abs _)
    unfold gap middle
    linarith

/-- A number that is a midpoint if it is as near to one as a double-precision number. -/
def Clear (q : Rat) : Prop :=
  ∀ k < single.infinity, |q - middle k| * 2 ^ 52 ≤ middle k → q = middle k

theorem scaled_shift (m : Nat) {e g : Int} (h : g ≤ e) :
    scaled m e = (m * 2 ^ (e - g).toNat : Nat) * (2 : Rat) ^ g := by
  obtain ⟨t, rfl⟩ : ∃ t : Nat, e = g + t := ⟨(e - g).toNat, by omega⟩
  rw [show (g + (t : Int) - g).toNat = t by omega, scaled, zpow_add₀ (by norm_num), zpow_natCast]
  push_cast; ring

theorem eq_of_near {a b : Int} {step bound : Rat} (hstep : 0 < step)
    (h : |a * step - b * step| * 2 ^ 52 ≤ bound * step) (hbound : bound < 2 ^ 52) : a = b := by
  by_contra hne
  have h1 : (1 : Rat) ≤ |(a : Rat) - b| := by
    have : 1 ≤ |a - b| := Int.one_le_abs (sub_ne_zero.mpr hne)
    exact_mod_cast this
  rw [← sub_mul, abs_mul, abs_of_pos hstep, mul_right_comm] at h
  have h2 := le_of_mul_le_mul_right h hstep
  nlinarith

/-! ## Sums -/

theorem exists_int_mul {x : Rat} {m : Nat} {e g : Int} (hx : |x| = scaled m e) (h : g ≤ e) :
    ∃ X : Int, x = X * 2 ^ g := by
  rw [scaled_shift m h] at hx
  rcases abs_choice x with hs | hs
  · exact ⟨(m * 2 ^ (e - g).toNat : Nat), by rw [← hs, hx]; push_cast; rfl⟩
  · exact ⟨-(m * 2 ^ (e - g).toNat : Nat), by rw [← neg_neg x, ← hs, hx]; push_cast; ring⟩

theorem far_of_small {x y : Rat} {i k : Nat} (hk : k < single.infinity)
    (hx : |x| = single.magnitude i) (hy : |y| * 4 ≤ single.gap k) :
    ¬ |(|x + y|) - middle k| * 2 ^ 52 ≤ middle k := by
  obtain ⟨c, g, -, hc, -, -, hmid, hgap⟩ := middle_grid hk
  have hP := scaled_pos Nat.one_pos g
  have hfar := gap_le_abs_sub_middle i k
  have hmove : |(|x|) - (|x + y|)| ≤ |y| := by
    have := abs_abs_sub_abs_le x (x + y)
    rwa [sub_add_cancel_left, abs_neg] at this
  have htri := abs_sub_le (|x|) (|x + y|) (middle k)
  have hcP : middle k = c * scaled 1 g := by rw [hmid]; unfold scaled; push_cast; ring
  have hc' : (c : Rat) * scaled 1 g ≤ 2 ^ 25 * scaled 1 g := by
    have : (c : Rat) ≤ 2 ^ 25 := by exact_mod_cast hc.le
    gcongr
  rw [hx] at hmove htri
  rw [hgap] at hfar hy
  intro h
  rw [hcP] at h hfar htri
  linarith

theorem clear_add {x y : Rat} {i j : Nat} (hi : i < single.infinity) (hj : j < single.infinity)
    (hx : |x| = single.magnitude i) (hy : |y| = single.magnitude j) : Clear |x + y| := by
  intro k hk hnear
  obtain ⟨S, e, hS, -, -, hval, -⟩ := single_grid hi
  obtain ⟨T, e', hT, -, -, hval', -⟩ := single_grid hj
  obtain ⟨c, g, -, hc, -, -, hmid, hgap⟩ := middle_grid hk
  have hsmall {S : Nat} {e : Int} (hS : S < 2 ^ 24) (he : e < g - 24) :
      scaled S e * 4 ≤ single.gap k := by
    have h1 : scaled S e ≤ scaled (2 ^ 24) e := scaled_le_scaled hS.le e
    have h2 : scaled (2 ^ 24) e * 4 = 2 * (2 : Rat) ^ (e + 25) := by
      rw [scaled, zpow_add₀ (by norm_num)]; push_cast; ring
    have h3 : (2 : Rat) ^ (e + 25) ≤ 2 ^ g := zpow_le_zpow_right₀ (by norm_num) (by omega)
    have h4 : scaled 1 g = 2 ^ g := by simp [scaled]
    rw [hgap, h4]
    linarith
  rcases lt_or_ge e' (g - 24) with he' | he'
  · exact absurd hnear (far_of_small hk hx (by rw [hy, hval']; exact hsmall hT he'))
  rcases lt_or_ge e (g - 24) with he | he
  · rw [add_comm] at hnear
    exact absurd hnear (far_of_small hk hy (by rw [hx, hval]; exact hsmall hS he))
  -- All three are multiples of one step, which is large against the error.
  obtain ⟨X, hX⟩ := exists_int_mul (hx.trans hval) he
  obtain ⟨Y, hY⟩ := exists_int_mul (hy.trans hval') he'
  have hstep : (0 : Rat) < 2 ^ (g - 24) := by positivity
  have hsum : |x + y| = (|X + Y| : Int) * (2 : Rat) ^ (g - 24) := by
    rw [hX, hY, ← add_mul, abs_mul, abs_of_pos hstep]
    push_cast; rfl
  have hmid' : middle k = (c * 2 ^ 24 : Int) * (2 : Rat) ^ (g - 24) := by
    rw [hmid, scaled_shift c (show g - 24 ≤ g by omega), show (g - (g - 24)).toNat = 24 by omega]
    push_cast; ring
  rw [hsum, hmid'] at hnear ⊢
  rw [eq_of_near hstep hnear ?_]
  have : (c : Rat) < 2 ^ 25 := by exact_mod_cast hc
  push_cast
  linarith

/-! ## Quotients -/

theorem clear_div {i j : Nat} (hi : i < single.infinity) (hj : j < single.infinity) (hpos : 0 < j) :
    Clear (single.magnitude i / single.magnitude j) := by
  intro k hk hnear
  obtain ⟨S, e, hS, -, -, hval, -⟩ := single_grid hi
  obtain ⟨T, e', hT, -, -, hval', -⟩ := single_grid hj
  obtain ⟨c, g, -, hc, -, -, hmid, -⟩ := middle_grid hk
  have hden : 0 < single.magnitude j := by
    rw [← magnitude_zero (f := single)]; exact magnitude_strictMono hpos
  have hT0 : (0 : Rat) < T := by
    rw [hval', scaled] at hden
    exact pos_of_mul_pos_left hden (by positivity)
  have hquot : single.magnitude i / single.magnitude j * T = S * (2 : Rat) ^ (e - e') := by
    rw [hval, hval', scaled, scaled, zpow_sub₀ (by norm_num)]
    field_simp
  have hscaled : |S * (2 : Rat) ^ (e - e') - middle k * T| * 2 ^ 52 ≤ middle k * T := by
    rw [← hquot, ← sub_mul, abs_mul, abs_of_pos hT0, mul_right_comm]
    exact mul_le_mul_of_nonneg_right hnear hT0.le
  suffices h : S * (2 : Rat) ^ (e - e') = middle k * T from
    mul_right_cancel₀ hT0.ne' (hquot.trans h)
  have hcT : (c : Rat) * T < 2 ^ 52 := by
    have : c * T < 2 ^ 52 := by
      calc c * T ≤ 2 ^ 25 * 2 ^ 24 := Nat.mul_le_mul hc.le hT.le
        _ < 2 ^ 52 := by norm_num
    exact_mod_cast this
  have hstep (t : Int) : (0 : Rat) < 2 ^ t := by positivity
  rcases le_or_gt g (e - e') with h | h
  · have h1 : S * (2 : Rat) ^ (e - e') = (S * 2 ^ (e - e' - g).toNat : Nat) * (2 : Rat) ^ g :=
      scaled_shift S h
    have h2 : middle k * T = (c * T : Nat) * (2 : Rat) ^ g := by
      rw [hmid, scaled]; push_cast; ring
    rw [h1, h2] at hscaled ⊢
    have := eq_of_near (a := (S * 2 ^ (e - e' - g).toNat : Nat)) (b := (c * T : Nat)) (hstep g)
      (by exact_mod_cast hscaled) (by exact_mod_cast hcT)
    rw [Int.natCast_inj.mp this]
  · have h2 : middle k * T = (c * T * 2 ^ (g - (e - e')).toNat : Nat) * (2 : Rat) ^ (e - e') := by
      have := scaled_shift (c * T) h.le
      rw [← this, hmid, scaled, scaled]; push_cast; ring
    rw [h2] at hscaled ⊢
    -- The numerators are integers, so a small relative error is none.
    have hb : ((c * T * 2 ^ (g - (e - e')).toNat : Nat) : Rat) < 2 ^ 52 := by
      rw [← sub_mul, abs_mul, abs_of_pos (hstep _), mul_right_comm] at hscaled
      have h3 := le_of_mul_le_mul_right hscaled (hstep _)
      have h4 := neg_le_abs ((S : Rat) - (c * T * 2 ^ (g - (e - e')).toNat : Nat))
      have h5 : (S : Rat) < 2 ^ 24 := by exact_mod_cast hS
      linarith
    have := eq_of_near (a := S) (b := (c * T * 2 ^ (g - (e - e')).toNat : Nat)) (hstep _)
      (by exact_mod_cast hscaled) hb
    rw [← Int.natCast_inj.mp this]

/-! ## Two roundings -/

/-- Rounding to double precision first makes no difference in single precision. -/
structure Innocuous (q : Rat) : Prop where
  finite : double.nearest q < double.infinity
  same : single.nearest (double.magnitude (double.nearest q)) = single.nearest q

theorem innocuous_of_exact {q : Rat} {j : Nat} (hj : j < double.infinity) (h : double.magnitude j = q) :
    Innocuous q := by
  have hq := nearest_magnitude proper_double hj.le
  rw [h] at hq
  exact ⟨by rwa [hq], by rw [hq, h]⟩

theorem innocuous_scaled {m : Nat} {e : Int} (hm : m < 2 ^ 53) (hlow : -1074 ≤ e) (hhigh : e ≤ 900) :
    Innocuous (scaled m e) := by
  obtain ⟨j, hj, h⟩ := exists_magnitude_eq (f := double) (m := m) (e := e) (by exact hm)
    (by exact hlow) (by change e + 2 ≤ -1074 + 2047; omega)
  exact innocuous_of_exact hj h

theorem innocuous_zero : Innocuous 0 := by
  have := innocuous_scaled (m := 0) (e := 0) (by norm_num) (by norm_num) (by norm_num)
  rwa [scaled, Nat.cast_zero, zero_mul] at this

theorem roundsWithin_single_iff {q : Rat} {k : Nat} :
    single.RoundsWithin q k ↔ q < middle k ∨ (q = middle k ∧ k % 2 = 0) := by
  rw [RoundsWithin, middle, lt_div_iff₀' two_pos, eq_div_iff two_ne_zero, mul_comm q 2]

/-- A number that rounds to a midpoint of single precision is one, if it is clear of them. -/
theorem eq_middle_of_nearest {q : Rat} (hq : 0 ≤ q) (hclear : Clear q) {j k : Nat}
    (hk : k < single.infinity) (hj : j < double.infinity) (hmid : double.magnitude j = middle k)
    (h : double.nearest q = j) : q = middle k := by
  subst h
  obtain ⟨c, g, hc, -, hg, -, hgrid, -⟩ := middle_grid hk
  have hnormal : double.unit < double.nearest q := by
    rw [← magnitude_strictMono (f := double).lt_iff_lt, hmid, hgrid]
    have h1 : double.magnitude double.unit = (2 : Rat) ^ (-1022 : Int) := by
      have := magnitude_grid (f := double) (E := 0) (S := double.unit) (by omega) (Or.inl rfl)
      rw [Nat.zero_mul, Nat.zero_add] at this
      rw [this, show double.unit = 2 ^ 52 by decide, scaled_two_pow]
      rfl
    rw [h1]
    calc (2 : Rat) ^ (-1022 : Int) < 2 ^ g := zpow_lt_zpow_right₀ (by norm_num) (by omega)
      _ = scaled 1 g := by rw [← pow_zero 2, scaled_two_pow, Nat.cast_zero, zero_add]
      _ ≤ scaled c g := scaled_le_scaled hc g
  have hnear := abs_sub_mul_unit_le proper_double hq hnormal hj
  rw [hmid, show double.unit = 2 ^ 52 by decide] at hnear
  exact hclear k hk (by exact_mod_cast hnear)

theorem innocuous_of_clear {q : Rat} (hq : 0 ≤ q) (hmax : q ≤ scaled 1 900) (hclear : Clear q) :
    Innocuous q := by
  obtain ⟨top, htop, hmag⟩ := exists_magnitude_eq (f := double) (m := 1) (e := 900) (by decide)
    (by decide) (by decide)
  have hfin : double.nearest q < double.infinity :=
    (nearest_le_of_le proper_double hq htop.le (by rwa [hmag])).trans_lt htop
  refine ⟨hfin, nearest_congr proper_single (magnitude_nonneg _) hq fun k hk => ?_⟩
  obtain ⟨c, g, -, hc, hlow, hhigh, hgrid, -⟩ := middle_grid hk
  obtain ⟨j, hj, hmid⟩ := exists_magnitude_eq (f := double) (m := c) (e := g)
    (hc.trans (by decide)) (by change -1074 ≤ g; omega) (by change g + 2 ≤ -1074 + 2047; omega)
  rw [← hgrid] at hmid
  have hne := eq_middle_of_nearest hq hclear hk hj hmid
  rw [roundsWithin_single_iff, roundsWithin_single_iff]
  rcases lt_trichotomy q (middle k) with h | h | h
  · have hle := nearest_le_of_le proper_double hq hj.le (hmid ▸ h.le)
    have hlt := magnitude_strictMono (f := double) (hle.lt_of_ne fun he => h.ne (hne he))
    rw [hmid] at hlt
    exact iff_of_true (Or.inl hlt) (Or.inl h)
  · rw [h, ← hmid, nearest_magnitude proper_double hj.le]
  · have hle := le_nearest_of_le proper_double hj.le (hmid ▸ h.le)
    have hlt := magnitude_strictMono (f := double) (hle.lt_of_ne fun he => h.ne' (hne he.symm))
    rw [hmid] at hlt
    exact iff_of_false (by rintro (h' | ⟨h', -⟩) <;> linarith) (by rintro (h' | ⟨h', -⟩) <;> linarith)

/-! ## Single-precision arithmetic -/

theorem single_magnitude_lt {k : Nat} (hk : k < single.infinity) :
    single.magnitude k < (2 : Rat) ^ 128 := by
  have h := magnitude_strictMono (f := single) hk
  have htop := magnitude_grid (f := single) (E := 254) (S := single.unit) (by omega) (Or.inr le_rfl)
  rw [show 254 * single.unit + single.unit = single.infinity by decide,
    show single.unit = 2 ^ 23 by decide, scaled_two_pow] at htop
  rw [htop] at h
  exact h

theorem single_magnitude_ge {k : Nat} (hk : 0 < k) : (2 : Rat) ^ (-149 : Int) ≤ single.magnitude k := by
  have h := magnitude_strictMono (f := single).monotone (Nat.succ_le_of_lt hk)
  have hone := magnitude_grid (f := single) (E := 0) (S := 2 ^ 0) (by decide) (Or.inl rfl)
  rw [Nat.zero_mul, Nat.zero_add, scaled_two_pow] at hone
  exact hone.symm.trans_le h

theorem innocuous_sum {x y : Rat} {i j : Nat} (hi : i < single.infinity) (hj : j < single.infinity)
    (hx : |x| = single.magnitude i) (hy : |y| = single.magnitude j) : Innocuous |x + y| := by
  refine innocuous_of_clear (abs_nonneg _) ?_ (clear_add hi hj hx hy)
  have h1 := single_magnitude_lt hi
  have h2 := single_magnitude_lt hj
  have h3 : (2 : Rat) ^ 128 + 2 ^ 128 = 2 ^ (129 : Int) := by norm_num
  have h4 : (2 : Rat) ^ (129 : Int) ≤ scaled (2 ^ 0) 900 := by
    rw [scaled_two_pow]
    exact zpow_le_zpow_right₀ (by norm_num) (by norm_num)
  rw [pow_zero] at h4
  linarith [abs_add_le x y]

theorem innocuous_product {i j : Nat} (hi : i < single.infinity) (hj : j < single.infinity) :
    Innocuous (single.magnitude i * single.magnitude j) := by
  obtain ⟨S, e, hS, hlow, hhigh, hval, -⟩ := single_grid hi
  obtain ⟨T, e', hT, hlow', hhigh', hval', -⟩ := single_grid hj
  have h : single.magnitude i * single.magnitude j = scaled (S * T) (e + e') := by
    rw [hval, hval', scaled, scaled, scaled, zpow_add₀ (by norm_num)]
    push_cast; ring
  rw [h]
  refine innocuous_scaled ?_ (by omega) (by omega)
  calc S * T ≤ 2 ^ 24 * 2 ^ 24 := Nat.mul_le_mul hS.le hT.le
    _ < 2 ^ 53 := by norm_num

theorem innocuous_quotient {i j : Nat} (hi : i < single.infinity) (hj : j < single.infinity)
    (hpos : 0 < j) : Innocuous (single.magnitude i / single.magnitude j) := by
  have h1 := single_magnitude_lt hi
  have h2 := single_magnitude_ge hpos
  have h3 : (0 : Rat) < 2 ^ (-149 : Int) := by positivity
  refine innocuous_of_clear (div_nonneg (magnitude_nonneg i) (magnitude_nonneg j)) ?_
    (clear_div hi hj hpos)
  rw [div_le_iff₀ (h3.trans_le h2)]
  calc single.magnitude i ≤ 2 ^ 128 := h1.le
    _ ≤ scaled 1 900 * 2 ^ (-149 : Int) := by
      rw [← pow_zero 2, scaled_two_pow, ← zpow_add₀ (by norm_num), ← zpow_natCast]
      exact zpow_le_zpow_right₀ (by norm_num) (by norm_num)
    _ ≤ scaled 1 900 * single.magnitude j := by
      have := (scaled_pos Nat.one_pos 900).le
      gcongr

/-! ## Values -/

theorem representable_double {v : Value} (h : single.Representable v) : double.Representable v := by
  cases h with
  | nan => exact .nan
  | infinite s => exact .infinite s
  | finite s hk =>
    obtain ⟨S, e, hS, hlow, hhigh, hval, -⟩ := single_grid hk
    obtain ⟨j, hj, h⟩ := exists_magnitude_eq (f := double) (m := S) (e := e) (hS.trans (by decide))
      (by change -1074 ≤ e; omega) (by change e + 2 ≤ -1074 + 2047; omega)
    rw [hval, ← h]
    exact .finite s hj

theorem value_widen (x : BitVec 32) :
    double.value (single.convert double 64 x) = single.value x := by
  rw [convert, value_pattern proper_double (by decide)]
  exact decode_encode_of_representable proper_double (representable_double (representable_value x))

/-- A value that is encoded alike with and without a rounding to double precision before it. -/
def Settled (v : Value) : Prop :=
  single.encode (double.decode (double.encode v)) = single.encode v

theorem settled_nan : Settled .nan := by rw [Settled, decode_encode proper_double]

theorem settled_infinite (s : Bool) : Settled (.infinite s) := by
  rw [Settled, decode_encode proper_double]

theorem settled_finite (s : Bool) {q : Rat} (h : Innocuous q) : Settled (.finite s q) := by
  rw [Settled, decode_encode proper_double]
  simp only
  rw [if_neg h.finite.ne, encode_finite, encode_finite, h.same]

theorem settled_ofRat {q : Rat} (h : Innocuous |q|) : Settled (.ofRat q) := by
  have habs : Value.signed (decide (q < 0)) q = |q| := by
    by_cases hq : q < 0
    · simp [Value.signed, hq, abs_of_neg hq]
    · simp [Value.signed, hq, abs_of_nonneg (not_lt.mp hq)]
  rw [Value.ofRat, habs]
  exact settled_finite _ h

theorem abs_signed (s : Bool) (k : Nat) :
    |Value.signed s (single.magnitude k)| = single.magnitude k := by
  cases s <;> simp [Value.signed, abs_of_nonneg (magnitude_nonneg k)]

theorem settled_add {v w : Value} (hv : single.Representable v) (hw : single.Representable w) :
    Settled (v.add w) := by
  cases hv with
  | nan => simpa [Value.add] using settled_nan
  | infinite s =>
    cases hw with
    | nan => exact settled_nan
    | infinite t =>
      rw [Value.add]
      split
      · exact settled_infinite s
      · exact settled_nan
    | finite t hj => exact settled_infinite s
  | finite s hi =>
    cases hw with
    | nan => exact settled_nan
    | infinite t => exact settled_infinite t
    | finite t hj =>
      rw [Value.add]
      split
      · exact settled_finite _ innocuous_zero
      · exact settled_ofRat (innocuous_sum hi hj (abs_signed s _) (abs_signed t _))

theorem representable_neg {f : Format} {v : Value} (h : f.Representable v) : f.Representable v.neg := by
  cases h with
  | nan => exact .nan
  | infinite s => exact .infinite _
  | finite s hk => exact .finite _ hk

theorem settled_mul {v w : Value} (hv : single.Representable v) (hw : single.Representable w) :
    Settled (v.mul w) := by
  have hinf (s : Bool) (q : Rat) : Settled (if q = 0 then .nan else .infinite s) := by
    split
    · exact settled_nan
    · exact settled_infinite s
  cases hv with
  | nan => simpa [Value.mul] using settled_nan
  | infinite s =>
    cases hw with
    | nan => exact settled_nan
    | infinite t => exact settled_infinite _
    | finite t hj => exact hinf _ _
  | finite s hi =>
    cases hw with
    | nan => exact settled_nan
    | infinite t => exact hinf _ _
    | finite t hj => exact settled_finite _ (innocuous_product hi hj)

theorem settled_div {v w : Value} (hv : single.Representable v) (hw : single.Representable w) :
    Settled (v.div w) := by
  cases hv with
  | nan => simpa [Value.div] using settled_nan
  | infinite s =>
    cases hw with
    | nan => exact settled_nan
    | infinite t => exact settled_nan
    | finite t hj => exact settled_infinite _
  | finite s hi =>
    cases hw with
    | nan => exact settled_nan
    | infinite t => exact settled_finite _ innocuous_zero
    | @finite t j hj =>
      rw [Value.div]
      split_ifs with hq hp
      · exact settled_nan
      · exact settled_infinite _
      · have hpos : 0 < j := Nat.pos_of_ne_zero fun h => hq (h ▸ magnitude_zero)
        exact settled_finite _ (innocuous_quotient hi hj hpos)

/-- An operation in single precision is the one in double precision on the widened operands. -/
theorem pattern_eq_convert {op : Value → Value → Value}
    (h : ∀ v w, single.Representable v → single.Representable w → Settled (op v w)) (x y : BitVec 32) :
    single.pattern 32 (op (single.value x) (single.value y)) =
      double.convert single 32 (double.pattern 64
        (op (double.value (single.convert double 64 x)) (double.value (single.convert double 64 y)))) := by
  have hset := h _ _ (representable_value x) (representable_value y)
  rw [value_widen, value_widen, convert, pattern, pattern, value_pattern proper_double (by decide), hset]

theorem single_add (x y : BitVec 32) : single.add x y =
    double.convert single 32 (double.add (single.convert double 64 x) (single.convert double 64 y)) :=
  pattern_eq_convert (fun _ _ => settled_add) x y

theorem single_sub (x y : BitVec 32) : single.sub x y =
    double.convert single 32 (double.sub (single.convert double 64 x) (single.convert double 64 y)) :=
  pattern_eq_convert (fun _ _ hv hw => settled_add hv (representable_neg hw)) x y

theorem single_mul (x y : BitVec 32) : single.mul x y =
    double.convert single 32 (double.mul (single.convert double 64 x) (single.convert double 64 y)) :=
  pattern_eq_convert (fun _ _ => settled_mul) x y

theorem single_div (x y : BitVec 32) : single.div x y =
    double.convert single 32 (double.div (single.convert double 64 x) (single.convert double 64 y)) :=
  pattern_eq_convert (fun _ _ => settled_div) x y

end Pointwise.Binary.Format

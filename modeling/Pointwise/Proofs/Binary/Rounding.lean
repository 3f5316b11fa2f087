import Mathlib.Algebra.Order.Field.Power
import Mathlib.Tactic.FieldSimp
import Mathlib.Tactic.Linarith
import Mathlib.Tactic.Positivity
import Mathlib.Tactic.Ring
import Pointwise.Binary.Arith

/-!
# Rounding to a format

The magnitudes of a format are in the order of their patterns, and a number is rounded by comparing
it with the midpoints between neighbours. All that is said of rounding here comes from that
comparison.
-/

namespace Pointwise.Binary

/-! ## Powers of two and quotients -/

theorem two_zpow_toNat (e : Int) : (2 : Rat) ^ e.toNat = 2 ^ e * 2 ^ (-e).toNat := by
  obtain ⟨k, rfl | rfl⟩ := e.eq_nat_or_neg
  · simp
  · simp only [neg_neg, Int.toNat_natCast, Int.toNat_neg_natCast, pow_zero, zpow_neg, zpow_natCast]
    field_simp

theorem roundHalfEven_le_iff {n d s : Nat} (hd : 0 < d) :
    roundHalfEven n d ≤ s ↔ 2 * n < (2 * s + 1) * d ∨ (2 * n = (2 * s + 1) * d ∧ s % 2 = 0) := by
  have hn : d * (n / d) + n % d = n := Nat.div_add_mod n d
  have hr : n % d < d := Nat.mod_lt n hd
  rw [roundHalfEven]
  generalize n / d = q at hn ⊢
  generalize n % d = r at hn hr ⊢
  have hs : (2 * s + 1) * d = 2 * (d * s) + d := by ring
  rw [hs, ← hn]
  rcases Nat.lt_trichotomy q s with h | rfl | h
  · have : d * q + d ≤ d * s := by
      have := Nat.mul_le_mul_left d (Nat.succ_le_of_lt h)
      rwa [Nat.mul_succ] at this
    split_ifs <;> omega
  · split_ifs <;> omega
  · have : d * s + d ≤ d * q := by
      have := Nat.mul_le_mul_left d (Nat.succ_le_of_lt h)
      rwa [Nat.mul_succ] at this
    split_ifs <;> omega

theorem le_div_log2 {n d : Nat} (hn : 0 < n) (hd : 0 < d) :
    (2 : Rat) ^ ((n.log2 : Int) - d.log2 - 1) ≤ n / d ∧
      (n : Rat) / d < 2 ^ ((n.log2 : Int) - d.log2 + 1) := by
  have h1 : ((2 ^ n.log2 : Nat) : Rat) ≤ n := by exact_mod_cast Nat.log2_self_le hn.ne'
  have h2 : (n : Rat) < ((2 ^ (n.log2 + 1) : Nat) : Rat) := by exact_mod_cast Nat.lt_log2_self
  have h3 : ((2 ^ d.log2 : Nat) : Rat) ≤ d := by exact_mod_cast Nat.log2_self_le hd.ne'
  have h4 : (d : Rat) < ((2 ^ (d.log2 + 1) : Nat) : Rat) := by exact_mod_cast Nat.lt_log2_self
  have hd' : (0 : Rat) < d := by exact_mod_cast hd
  push_cast at h1 h2 h3 h4
  constructor
  · rw [le_div_iff₀ hd']
    calc (2 : Rat) ^ ((n.log2 : Int) - d.log2 - 1) * d
        ≤ 2 ^ ((n.log2 : Int) - d.log2 - 1) * 2 ^ (d.log2 + 1) := by gcongr
      _ = 2 ^ n.log2 := by
        rw [← zpow_natCast, ← zpow_natCast, ← zpow_add₀ (by norm_num)]; congr 1; push_cast; ring
      _ ≤ n := h1
  · rw [div_lt_iff₀ hd']
    calc (n : Rat) < 2 ^ (n.log2 + 1) := h2
      _ = 2 ^ ((n.log2 : Int) - d.log2 + 1) * 2 ^ d.log2 := by
        rw [← zpow_natCast, ← zpow_natCast, ← zpow_add₀ (by norm_num)]; congr 1; push_cast; ring
      _ ≤ 2 ^ ((n.log2 : Int) - d.log2 + 1) * d := by gcongr

theorem floorLog2_spec {n d : Nat} (hn : 0 < n) (hd : 0 < d) :
    (2 : Rat) ^ floorLog2 n d ≤ n / d ∧ (n : Rat) / d < 2 ^ (floorLog2 n d + 1) := by
  obtain ⟨hlow, hhigh⟩ := le_div_log2 hn hd
  have hd' : (0 : Rat) < d := by exact_mod_cast hd
  unfold floorLog2
  simp only
  generalize (n.log2 : Int) - d.log2 = k at *
  have htest : d * 2 ^ k.toNat ≤ n * 2 ^ (-k).toNat ↔ (2 : Rat) ^ k ≤ n / d := by
    rw [le_div_iff₀ hd', ← Nat.cast_le (α := Rat)]
    push_cast
    rw [two_zpow_toNat k, show (d : Rat) * (2 ^ k * 2 ^ (-k).toNat) = 2 ^ k * d * 2 ^ (-k).toNat by ring]
    exact mul_le_mul_iff_left₀ (by positivity)
  split_ifs with h
  · exact ⟨htest.mp h, hhigh⟩
  · rw [htest, not_le] at h
    exact ⟨hlow, by simpa using h⟩

namespace Format

/-- A format with a fraction field of its own. -/
structure Proper (f : Format) : Prop where
  precision : 2 ≤ f.precision

theorem proper_single : single.Proper := ⟨by decide⟩
theorem proper_double : double.Proper := ⟨by decide⟩

variable {f : Format}

theorem scaled_pos {m : Nat} (hm : 0 < m) (e : Int) : 0 < scaled m e := by
  have : (0 : Rat) < m := by exact_mod_cast hm
  unfold scaled; positivity

theorem scaled_two_mul (m : Nat) (e : Int) : scaled (2 * m) e = scaled m (e + 1) := by
  unfold scaled
  rw [zpow_add_one₀ (by norm_num)]
  push_cast; ring

theorem scaled_two_pow (n : Nat) (e : Int) : scaled (2 ^ n) e = 2 ^ ((n : Int) + e) := by
  rw [scaled, zpow_add₀ (by norm_num), zpow_natCast]
  push_cast; rfl

theorem scaled_mul (m k : Nat) (e : Int) : scaled m e * k = (m * k : Nat) * 2 ^ e := by
  unfold scaled
  push_cast
  ring

theorem scaled_le_scaled {m n : Nat} (h : m ≤ n) (e : Int) : scaled m e ≤ scaled n e := by
  have : (m : Rat) ≤ n := by exact_mod_cast h
  unfold scaled; gcongr

theorem unit_pos : 0 < f.unit := Nat.two_pow_pos _

theorem unit_even (hf : f.Proper) : f.unit % 2 = 0 := by
  obtain ⟨k, hk⟩ : ∃ k, f.precision - 1 = k + 1 := ⟨f.precision - 2, by have := hf.precision; omega⟩
  rw [unit, hk, Nat.pow_succ]
  omega

theorem two_mul_unit (hf : f.Proper) : 2 * f.unit = 2 ^ f.precision := by
  rw [unit, ← Nat.pow_succ']
  congr 1
  have := hf.precision
  omega

/-! ## Magnitudes in the order of patterns -/

theorem magnitude_grid {E S : Nat} (hS : S ≤ 2 * f.unit) (hE : E = 0 ∨ f.unit ≤ S) :
    f.magnitude (E * f.unit + S) = scaled S (f.minExponent + E) := by
  have hu : 0 < f.unit := unit_pos
  unfold magnitude
  rcases Nat.lt_or_ge S f.unit with hlt | hge
  · obtain rfl : E = 0 := hE.resolve_right (by omega)
    simp [Nat.div_eq_of_lt hlt, Nat.mod_eq_of_lt hlt]
  · obtain ⟨r, rfl⟩ := Nat.exists_eq_add_of_le hge
    rcases Nat.lt_or_ge r f.unit with hr | hr
    · have hdiv : (E * f.unit + (f.unit + r)) / f.unit = E + 1 := by
        rw [← Nat.add_assoc, ← Nat.succ_mul, Nat.mul_comm, Nat.mul_add_div hu, Nat.div_eq_of_lt hr]
      have hmod : (E * f.unit + (f.unit + r)) % f.unit = r := by
        rw [← Nat.add_assoc, ← Nat.succ_mul, Nat.mul_comm, Nat.mul_add_mod, Nat.mod_eq_of_lt hr]
      simp [hdiv, hmod]
    · obtain rfl : r = f.unit := by omega
      have hdiv : (E * f.unit + (f.unit + f.unit)) / f.unit = E + 2 := by
        rw [show E * f.unit + (f.unit + f.unit) = (E + 2) * f.unit by ring, Nat.mul_div_cancel _ hu]
      have hmod : (E * f.unit + (f.unit + f.unit)) % f.unit = 0 := by
        rw [show E * f.unit + (f.unit + f.unit) = (E + 2) * f.unit by ring, Nat.mul_mod_left]
      simp only [hdiv, hmod]
      rw [if_neg (by omega), ← Nat.two_mul, scaled_two_mul]
      congr 1
      omega

theorem exists_grid (f : Format) (k : Nat) :
    ∃ E S, k = E * f.unit + S ∧ S < 2 * f.unit ∧ (E = 0 ∨ f.unit ≤ S) := by
  have hu : 0 < f.unit := unit_pos
  have hk := Nat.div_add_mod k f.unit
  have hr := Nat.mod_lt k hu
  cases hq : k / f.unit with
  | zero =>
    rw [hq] at hk
    exact ⟨0, k, by simp, by omega, Or.inl rfl⟩
  | succ E =>
    rw [hq, Nat.mul_succ, Nat.mul_comm] at hk
    exact ⟨E, f.unit + k % f.unit, by omega, by omega, Or.inr (by omega)⟩

/-- The distance from a magnitude to the next one. -/
def gap (f : Format) (k : Nat) : Rat := f.magnitude (k + 1) - f.magnitude k

theorem gap_grid {E S : Nat} (hS : S < 2 * f.unit) (hE : E = 0 ∨ f.unit ≤ S) :
    f.gap (E * f.unit + S) = scaled 1 (f.minExponent + E) := by
  rw [gap, Nat.add_assoc, magnitude_grid hS (by omega), magnitude_grid (by omega) hE]
  unfold scaled
  push_cast; ring

theorem gap_pos (k : Nat) : 0 < f.gap k := by
  obtain ⟨E, S, rfl, hS, hE⟩ := exists_grid f k
  rw [gap_grid hS hE]
  exact scaled_pos Nat.one_pos _

theorem magnitude_strictMono : StrictMono f.magnitude :=
  strictMono_nat_of_lt_succ fun k => sub_pos.mp (gap_pos k)

theorem magnitude_zero : f.magnitude 0 = 0 := by simp [magnitude, unit, scaled]

theorem magnitude_nonneg (k : Nat) : 0 ≤ f.magnitude k := by
  rw [← magnitude_zero (f := f)]
  exact magnitude_strictMono.monotone (Nat.zero_le k)

/-! ## Rounding compares with midpoints -/

/-- Whether a number is rounded to a pattern no greater than `k`. -/
def RoundsWithin (f : Format) (q : Rat) (k : Nat) : Prop :=
  2 * q < f.magnitude k + f.magnitude (k + 1) ∨
    (2 * q = f.magnitude k + f.magnitude (k + 1) ∧ k % 2 = 0)

theorem roundsWithin_of_lt {q : Rat} {k : Nat} (h : q < f.magnitude (k + 1)) (h' : q ≤ f.magnitude k) :
    f.RoundsWithin q k := Or.inl (by linarith)

theorem not_roundsWithin_of_le {q : Rat} {k : Nat} (h : f.magnitude (k + 1) ≤ q) :
    ¬ f.RoundsWithin q k := by
  have := magnitude_strictMono (f := f) (Nat.lt_succ_self k)
  rintro (h' | ⟨h', -⟩) <;> linarith

theorem significand_range (hf : f.Proper) {n d : Nat} (hn : 0 < n) (hd : 0 < d) :
    let e := max f.minExponent (floorLog2 n d - (f.precision - 1 : Nat))
    (n : Rat) / d < scaled (2 * f.unit) e ∧ (e = f.minExponent ∨ scaled f.unit e ≤ n / d) := by
  intro e
  obtain ⟨hlow, hhigh⟩ := floorLog2_spec hn hd
  have hp := hf.precision
  constructor
  · refine lt_of_lt_of_le hhigh ?_
    rw [two_mul_unit hf, scaled]
    push_cast
    rw [← zpow_natCast, ← zpow_add₀ (by norm_num)]
    exact zpow_le_zpow_right₀ (by norm_num) (by omega)
  · by_cases he : e = f.minExponent
    · exact Or.inl he
    · right
      refine le_trans (le_of_eq ?_) hlow
      rw [scaled, unit]
      push_cast
      rw [← zpow_natCast, ← zpow_add₀ (by norm_num)]
      congr 1
      omega

/-- A number is `N / D` steps of an exponent, which is the one that it is rounded at. -/
structure Steps (f : Format) (q : Rat) (E N D : Nat) : Prop where
  pos : 0 < D
  mul_eq : q * D = N * 2 ^ (f.minExponent + E)
  lt : q < scaled (2 * f.unit) (f.minExponent + E)
  le : E = 0 ∨ scaled f.unit (f.minExponent + E) ≤ q

theorem exists_steps (hf : f.Proper) {n d : Nat} (hn : 0 < n) (hd : 0 < d) :
    ∃ E N D, f.Steps (n / d) E N D ∧
      f.roundMagnitude n d = min f.infinity (E * f.unit + roundHalfEven N D) := by
  obtain ⟨hhigh, hlow⟩ := significand_range hf hn hd
  have hmin : f.minExponent ≤ max f.minExponent (floorLog2 n d - (f.precision - 1 : Nat)) :=
    le_max_left _ _
  rw [roundMagnitude, if_neg hn.ne']
  simp only
  generalize max f.minExponent (floorLog2 n d - (f.precision - 1 : Nat)) = e at *
  obtain ⟨E, rfl⟩ : ∃ E : Nat, e = f.minExponent + E := ⟨(e - f.minExponent).toNat, by omega⟩
  have hE : (f.minExponent + E - f.minExponent).toNat = E := by omega
  rw [hE]
  refine ⟨E, _, _, ⟨Nat.mul_pos hd (Nat.two_pow_pos _), ?_, hhigh,
    hlow.imp_left fun h => by omega⟩, rfl⟩
  have hd' : (d : Rat) ≠ 0 := by exact_mod_cast hd.ne'
  push_cast
  rw [two_zpow_toNat]
  field_simp

namespace Steps

variable {q : Rat} {E N D : Nat} (h : f.Steps q E N D)
include h

theorem cast_pos : (0 : Rat) < D := by exact_mod_cast h.pos

theorem mul_lt_scaled_iff (c m : Nat) :
    c * q < scaled m (f.minExponent + E) ↔ c * N < m * D := by
  have hpow : (0 : Rat) < 2 ^ (f.minExponent + E) := by positivity
  rw [← mul_lt_mul_iff_left₀ h.cast_pos, scaled_mul, mul_assoc, h.mul_eq, ← mul_assoc,
    mul_lt_mul_iff_left₀ hpow]
  exact_mod_cast Iff.rfl

theorem mul_eq_scaled_iff (c m : Nat) :
    c * q = scaled m (f.minExponent + E) ↔ c * N = m * D := by
  have hpow : (2 : Rat) ^ (f.minExponent + E) ≠ 0 := by positivity
  rw [← mul_left_inj' h.cast_pos.ne', scaled_mul, mul_assoc, h.mul_eq, ← mul_assoc,
    mul_left_inj' hpow]
  exact_mod_cast Iff.rfl

theorem numerator_lt : N < 2 * f.unit * D := by
  have hlt := (h.mul_lt_scaled_iff 1 (2 * f.unit)).1 (by simpa using h.lt)
  rwa [Nat.one_mul] at hlt

theorem le_numerator : E = 0 ∨ f.unit * D ≤ N := by
  refine h.le.imp_right fun hle => ?_
  have hlt := (h.mul_lt_scaled_iff 1 f.unit).not.1 (by simpa using hle)
  omega

theorem roundHalfEven_le : roundHalfEven N D ≤ 2 * f.unit := by
  have hlt := h.numerator_lt
  have hmid : (2 * (2 * f.unit) + 1) * D = 2 * (2 * f.unit * D) + D := by ring
  exact (roundHalfEven_le_iff h.pos).2 (.inl (by omega))

theorem le_roundHalfEven : E = 0 ∨ f.unit ≤ roundHalfEven N D := by
  refine h.le_numerator.imp_right fun hle => ?_
  by_contra hlt
  obtain ⟨u, hu⟩ : ∃ u, f.unit = u + 1 := ⟨f.unit - 1, by have := unit_pos (f := f); omega⟩
  have hround : roundHalfEven N D ≤ u := by omega
  rw [roundHalfEven_le_iff h.pos] at hround
  have hpos := h.pos
  have hsucc : (u + 1) * D = u * D + D := by ring
  have hmid : (2 * u + 1) * D = 2 * (u * D) + D := by ring
  rw [hu] at hle
  omega

theorem roundsWithin_iff (hf : f.Proper) {s : Nat} (hs : s < 2 * f.unit)
    (hsE : E = 0 ∨ f.unit ≤ s) :
    f.RoundsWithin q (E * f.unit + s) ↔ roundHalfEven N D ≤ s := by
  have hmid : f.magnitude (E * f.unit + s) + f.magnitude (E * f.unit + s + 1) =
      scaled (2 * s + 1) (f.minExponent + E) := by
    rw [Nat.add_assoc, magnitude_grid (by omega) hsE, magnitude_grid hs (by omega)]
    unfold scaled
    push_cast
    ring
  have hlt := h.mul_lt_scaled_iff 2 (2 * s + 1)
  have heq := h.mul_eq_scaled_iff 2 (2 * s + 1)
  have hparity : (E * f.unit + s) % 2 = s % 2 := by
    rw [Nat.add_mod, Nat.mul_mod, unit_even hf]
    simp
  rw [roundHalfEven_le_iff h.pos, RoundsWithin, hmid, hparity, ← hlt, ← heq]
  rfl

theorem not_roundsWithin_below (hE : E ≠ 0) {k : Nat} (hk : k < E * f.unit + f.unit) :
    ¬f.RoundsWithin q k := by
  refine not_roundsWithin_of_le ((magnitude_strictMono.monotone hk).trans ?_)
  rw [magnitude_grid (by omega) (.inr le_rfl)]
  exact h.le.resolve_left hE

theorem roundsWithin_above {k : Nat} (hk : E * f.unit + 2 * f.unit ≤ k) : f.RoundsWithin q k := by
  have hlt : q < f.magnitude k := by
    refine h.lt.trans_le ?_
    rw [← magnitude_grid le_rfl (.inr (by omega))]
    exact magnitude_strictMono.monotone hk
  exact roundsWithin_of_lt (hlt.trans (magnitude_strictMono (Nat.lt_succ_self k))) hlt.le

theorem add_roundHalfEven_le_iff (hf : f.Proper) (k : Nat) :
    E * f.unit + roundHalfEven N D ≤ k ↔ f.RoundsWithin q k := by
  have hlow := h.le_roundHalfEven
  have hhigh := h.roundHalfEven_le
  rcases Nat.lt_or_ge k (E * f.unit + 2 * f.unit) with hbelow | habove
  · by_cases hexponent : E = 0 ∨ E * f.unit + f.unit ≤ k
    · obtain ⟨s, rfl⟩ : ∃ s, k = E * f.unit + s := by
        refine Nat.exists_eq_add_of_le (hexponent.elim (fun hE => ?_) fun hk => by omega)
        rw [hE, Nat.zero_mul]
        exact Nat.zero_le k
      rw [h.roundsWithin_iff hf (by omega) (hexponent.imp_right fun hk => by omega),
        Nat.add_le_add_iff_left]
    · obtain ⟨hE, hk⟩ := not_or.1 hexponent
      have hround := hlow.resolve_left hE
      exact iff_of_false (by omega) (h.not_roundsWithin_below hE (by omega))
  · exact iff_of_true (by omega) (h.roundsWithin_above habove)

end Steps

theorem roundMagnitude_le_iff (hf : f.Proper) {n d k : Nat} (hd : 0 < d) (hk : k < f.infinity) :
    f.roundMagnitude n d ≤ k ↔ f.RoundsWithin (n / d) k := by
  rcases Nat.eq_zero_or_pos n with rfl | hn
  · have hpos := magnitude_strictMono (f := f) (Nat.succ_pos k)
    rw [magnitude_zero] at hpos
    simp only [roundMagnitude, if_true, Nat.zero_le, true_iff, Nat.cast_zero, zero_div]
    exact roundsWithin_of_lt hpos (magnitude_nonneg k)
  · obtain ⟨E, N, D, h, hround⟩ := exists_steps hf hn hd
    rw [hround, min_le_iff, or_iff_right (by omega), h.add_roundHalfEven_le_iff hf]

/-! ## The nearest pattern -/

/-- The pattern of the magnitude nearest to a number. -/
def nearest (f : Format) (q : Rat) : Nat := f.roundMagnitude q.num.toNat q.den

theorem encode_finite (s : Bool) (q : Rat) : f.encode (.finite s q) = f.withSign s (f.nearest q) := rfl

theorem nearest_le_infinity (q : Rat) : f.nearest q ≤ f.infinity := by
  rw [nearest, roundMagnitude]
  split
  · exact Nat.zero_le _
  · exact min_le_left _ _

theorem nearest_le_iff (hf : f.Proper) {q : Rat} (hq : 0 ≤ q) {k : Nat} (hk : k < f.infinity) :
    f.nearest q ≤ k ↔ f.RoundsWithin q k := by
  have hnum : (q.num.toNat : Rat) = q.num := by
    exact_mod_cast Int.toNat_of_nonneg (Rat.num_nonneg.mpr hq)
  rw [nearest, roundMagnitude_le_iff hf q.den_pos hk, hnum, Rat.num_div_den]

/-- Rounding is decided by the comparisons with the midpoints. -/
theorem nearest_congr (hf : f.Proper) {q r : Rat} (hq : 0 ≤ q) (hr : 0 ≤ r)
    (h : ∀ k < f.infinity, f.RoundsWithin q k ↔ f.RoundsWithin r k) : f.nearest q = f.nearest r := by
  have hle {q r : Rat} (hq : 0 ≤ q) (hr : 0 ≤ r)
      (h : ∀ k < f.infinity, f.RoundsWithin r k → f.RoundsWithin q k) : f.nearest q ≤ f.nearest r := by
    rcases (nearest_le_infinity r).lt_or_eq with hk | hk
    · exact (nearest_le_iff hf hq hk).mpr (h _ hk ((nearest_le_iff hf hr hk).mp le_rfl))
    · rw [hk]; exact nearest_le_infinity q
  exact le_antisymm (hle hq hr fun k hk => (h k hk).mpr) (hle hr hq fun k hk => (h k hk).mp)

theorem nearest_le_of_le (hf : f.Proper) {q : Rat} (hq : 0 ≤ q) {j : Nat} (hj : j ≤ f.infinity)
    (h : q ≤ f.magnitude j) : f.nearest q ≤ j := by
  rcases hj.lt_or_eq with hj | rfl
  · rw [nearest_le_iff hf hq hj]
    exact roundsWithin_of_lt (lt_of_le_of_lt h (magnitude_strictMono (Nat.lt_succ_self j))) h
  · exact nearest_le_infinity q

theorem le_nearest_of_le (hf : f.Proper) {q : Rat} {j : Nat} (hj : j ≤ f.infinity)
    (h : f.magnitude j ≤ q) : j ≤ f.nearest q := by
  cases j with
  | zero => exact Nat.zero_le _
  | succ k =>
    have hq : 0 ≤ q := le_trans (magnitude_nonneg _) h
    have := (nearest_le_iff hf hq hj).not.mpr (not_roundsWithin_of_le h)
    omega

theorem nearest_magnitude (hf : f.Proper) {j : Nat} (hj : j ≤ f.infinity) :
    f.nearest (f.magnitude j) = j :=
  le_antisymm (nearest_le_of_le hf (magnitude_nonneg j) hj le_rfl) (le_nearest_of_le hf hj le_rfl)

theorem gap_mul_unit_le {k : Nat} (h : f.unit ≤ k) : f.gap k * f.unit ≤ f.magnitude k := by
  obtain ⟨E, S, rfl, hS, hE⟩ := exists_grid f k
  have hu : f.unit ≤ S := by
    rcases hE with rfl | hE
    · simpa using h
    · exact hE
  rw [gap_grid hS hE, magnitude_grid hS.le hE]
  refine le_trans (le_of_eq ?_) (scaled_le_scaled hu _)
  unfold scaled; push_cast; ring

/-- A number is no farther from the one it is rounded to than one part in `unit` of that one. -/
theorem abs_sub_mul_unit_le (hf : f.Proper) {q : Rat} (hq : 0 ≤ q) (hlow : f.unit < f.nearest q)
    (hhigh : f.nearest q < f.infinity) :
    |q - f.magnitude (f.nearest q)| * f.unit ≤ f.magnitude (f.nearest q) := by
  have hright := (nearest_le_iff hf hq hhigh).mp le_rfl
  obtain ⟨k, hk⟩ : ∃ k, f.nearest q = k + 1 := ⟨f.nearest q - 1, by omega⟩
  have hleft := (nearest_le_iff hf hq (k := k) (by omega)).not.mp (by omega)
  rw [hk] at hright hlow ⊢
  have hgap := gap_mul_unit_le (f := f) (k := k) (by omega)
  have hgap' := gap_mul_unit_le (f := f) (k := k + 1) (by omega)
  have hu : (0 : Rat) ≤ f.unit := by positivity
  have hmono := magnitude_strictMono (f := f) (Nat.lt_succ_self k)
  have hnear : q ≤ f.magnitude (k + 1) + f.gap (k + 1) ∧ f.magnitude (k + 1) - f.gap k ≤ q := by
    unfold gap
    unfold RoundsWithin at hright hleft
    have := magnitude_strictMono (f := f) (Nat.lt_succ_self (k + 1))
    constructor
    · rcases hright with h | ⟨h, -⟩ <;> simp only [Nat.succ_eq_add_one] at * <;> linarith
    · have := not_lt.mp fun h => hleft (Or.inl h)
      linarith
  rcases abs_cases (q - f.magnitude (k + 1)) with ⟨habs, -⟩ | ⟨habs, -⟩
  · rw [habs]
    exact le_trans (mul_le_mul_of_nonneg_right (by linarith [hnear.1]) hu) hgap'
  · rw [habs]
    exact le_trans (mul_le_mul_of_nonneg_right (by linarith [hnear.2]) hu) (hgap.trans hmono.le)

theorem exists_magnitude_eq {m : Nat} {e : Int} (hm : m < 2 * f.unit) (hlow : f.minExponent ≤ e)
    (hhigh : e + 2 ≤ f.minExponent + f.topField) :
    ∃ j < f.infinity, f.magnitude j = scaled m e := by
  obtain ⟨E, rfl⟩ : ∃ E : Nat, e = f.minExponent + E := ⟨(e - f.minExponent).toNat, by omega⟩
  induction E generalizing m with
  | zero =>
    refine ⟨m, ?_, by simpa using magnitude_grid (f := f) (E := 0) hm.le (Or.inl rfl)⟩
    calc m < 2 * f.unit := hm
      _ ≤ f.topField * f.unit := Nat.mul_le_mul_right _ (by omega)
  | succ E ih =>
    rcases Nat.lt_or_ge m f.unit with h | h
    · obtain ⟨j, hj, heq⟩ := ih (m := 2 * m) (by omega) (by omega) (by push_cast at hhigh; omega)
      refine ⟨j, hj, ?_⟩
      rw [heq, scaled_two_mul]
      congr 1
      push_cast; ring
    · refine ⟨(E + 1) * f.unit + m, ?_, by exact_mod_cast magnitude_grid (f := f) hm.le (Or.inr h)⟩
      calc (E + 1) * f.unit + m < (E + 1) * f.unit + 2 * f.unit := Nat.add_lt_add_left hm _
        _ = (E + 3) * f.unit := by ring
        _ ≤ f.topField * f.unit := Nat.mul_le_mul_right _ (by push_cast at hhigh; omega)

/-! ## Decoding what was encoded -/

theorem infinity_lt_signBit (hf : f.Proper) : f.infinity < f.signBit := by
  have h1 : f.signBit = 2 ^ f.exponentBits * f.unit := by
    rw [signBit, width, unit, ← Nat.pow_add]
    congr 1
    have := hf.precision
    omega
  rw [h1, infinity, topField]
  exact Nat.mul_lt_mul_of_pos_right (Nat.sub_lt (Nat.two_pow_pos _) Nat.one_pos) unit_pos

theorem withSign_lt {s : Bool} {m : Nat} (hf : f.Proper) (hm : m < f.signBit) :
    f.withSign s m < 2 ^ f.width := by
  have h : 2 ^ f.width = 2 * f.signBit := by
    rw [signBit, ← Nat.pow_succ']
    congr 1
    have := hf.precision
    unfold width
    omega
  rw [h, withSign]
  split <;> omega

theorem decode_withSign {s : Bool} {m : Nat} (hm : m < f.signBit) :
    f.decode (f.withSign s m) =
      if f.infinity < m then .nan else if m = f.infinity then .infinite s else .finite s (f.magnitude m) := by
  have hmod : f.withSign s m % f.signBit = m := by
    cases s <;> simp [withSign, Nat.mod_eq_of_lt hm]
  have hsign : (f.withSign s m).testBit (f.width - 1) = s := by
    rw [signBit] at hm
    cases s
    · exact Nat.testBit_lt_two_pow hm
    · rw [withSign, if_pos rfl, signBit, Nat.testBit_two_pow_add_eq, Nat.testBit_lt_two_pow hm]
      rfl
  rw [decode, hmod, hsign]

theorem infinity_lt_quietNaN (hf : f.Proper) : f.infinity < f.quietNaN ∧ f.quietNaN < f.signBit := by
  have h1 : f.signBit = f.infinity + f.unit := by
    rw [signBit, width, infinity, topField, unit, ← Nat.succ_mul, Nat.succ_eq_add_one,
      Nat.sub_add_cancel (Nat.two_pow_pos _), ← Nat.pow_add]
    congr 1
    have := hf.precision
    omega
  have h2 := unit_even hf
  have h3 := unit_pos (f := f)
  unfold quietNaN
  omega

theorem encode_lt (hf : f.Proper) (v : Value) : f.encode v < 2 ^ f.width := by
  cases v with
  | nan => exact withSign_lt (s := false) hf (infinity_lt_quietNaN hf).2
  | infinite s => exact withSign_lt hf (infinity_lt_signBit hf)
  | finite s q => exact withSign_lt hf ((nearest_le_infinity q).trans_lt (infinity_lt_signBit hf))

/-- The value of the pattern of a value, which is rounded. -/
theorem decode_encode (hf : f.Proper) (v : Value) : f.decode (f.encode v) =
    match v with
    | .finite s q =>
      if f.nearest q = f.infinity then .infinite s else .finite s (f.magnitude (f.nearest q))
    | v => v := by
  cases v with
  | nan =>
    obtain ⟨h1, h2⟩ := infinity_lt_quietNaN hf
    have := decode_withSign (s := false) h2
    rw [if_pos h1] at this
    exact this
  | infinite s =>
    rw [encode, decode_withSign (infinity_lt_signBit hf), if_neg (lt_irrefl _), if_pos rfl]
  | finite s q =>
    have h := nearest_le_infinity (f := f) q
    rw [encode_finite, decode_withSign (h.trans_lt (infinity_lt_signBit hf)), if_neg (by omega)]

theorem value_pattern (hf : f.Proper) {w : Nat} (hw : f.width ≤ w) (v : Value) :
    f.value (f.pattern w v) = f.decode (f.encode v) := by
  have h : f.encode v < 2 ^ w := (encode_lt hf v).trans_le (Nat.pow_le_pow_right (by decide) hw)
  rw [value, pattern, BitVec.toNat_ofNat, Nat.mod_eq_of_lt h]

/-- Whether a value is that of some pattern. -/
inductive Representable (f : Format) : Value → Prop
  | nan : f.Representable .nan
  | infinite (s : Bool) : f.Representable (.infinite s)
  | finite (s : Bool) {k : Nat} (hk : k < f.infinity) : f.Representable (.finite s (f.magnitude k))

theorem representable_value {w : Nat} (x : BitVec w) : f.Representable (f.value x) := by
  unfold value decode
  simp only
  split_ifs with h1 h2
  · exact .nan
  · exact .infinite _
  · exact .finite _ (by omega)

theorem decode_encode_of_representable (hf : f.Proper) {v : Value} (h : f.Representable v) :
    f.decode (f.encode v) = v := by
  rw [decode_encode hf]
  cases h with
  | nan => rfl
  | infinite s => rfl
  | finite s hk =>
    simp only [nearest_magnitude hf hk.le]
    rw [if_neg hk.ne]

/-! ## Natural numbers -/

theorem representable_natCast {n : Nat} (hn : n < 2 ^ 53) :
    double.Representable (.finite false n) := by
  obtain ⟨j, hj, hmagnitude⟩ := exists_magnitude_eq (f := double) (m := n) (e := 0) hn (by decide)
    (by decide)
  have hscaled : scaled n 0 = n := by simp [scaled]
  rw [← hscaled, ← hmagnitude]
  exact .finite false hj

theorem value_pattern_natCast {n : Nat} (hn : n < 2 ^ 53) :
    double.value (double.pattern 64 (.finite false n)) = .finite false n := by
  rw [value_pattern proper_double (by decide),
    decode_encode_of_representable proper_double (representable_natCast hn)]

end Format

namespace Value

theorem ofRat_natCast (n : Nat) : ofRat n = .finite false n := by
  have hnot : ¬(n : Rat) < 0 := by simp
  simp [ofRat, signed, hnot]

theorem add_natCast (m n : Nat) :
    add (.finite false m) (.finite false n) = .finite false (m + n : Nat) := by
  have hsum : (m : Rat) + n = (m + n : Nat) := by push_cast; rfl
  show (if (m : Rat) + n = 0 then finite false 0 else ofRat (m + n)) = _
  rw [hsum, ofRat_natCast]
  split
  next hzero => rw [hzero]
  next => rfl

end Value

end Pointwise.Binary

import Pointwise.Binary.Value

/-!
# Binary floating-point formats

A pattern has, from the top, a sign bit, an exponent field and a fraction field. `decode` reads the
value of a pattern and `encode` finds the pattern nearest to a value.
-/

namespace Pointwise.Binary

/-- A format by its precision, hidden bit included, and the width of its exponent field. -/
structure Format where
  precision : Nat
  exponentBits : Nat
deriving DecidableEq, Repr

def single : Format := ⟨24, 8⟩
def double : Format := ⟨53, 11⟩

/-- `n / d` to the nearest whole number, a half to the even one. -/
def roundHalfEven (n d : Nat) : Nat :=
  let q := n / d
  let r := n % d
  if 2 * r < d then q else if 2 * r > d then q + 1 else q + q % 2

/-- The greatest `k` with `2 ^ k ≤ n / d`, for positive `n` and `d`. -/
def floorLog2 (n d : Nat) : Int :=
  let k : Int := n.log2 - d.log2
  if d * 2 ^ k.toNat ≤ n * 2 ^ (-k).toNat then k else k - 1

namespace Format

variable (f : Format)

/-- Bits of a pattern. -/
def width : Nat := f.precision + f.exponentBits

/-- Patterns of one exponent: the weight of the exponent field's last bit. -/
def unit : Nat := 2 ^ (f.precision - 1)

/-- The exponent field of the infinities. -/
def topField : Nat := 2 ^ f.exponentBits - 1

/-- The weight of the sign bit. -/
def signBit : Nat := 2 ^ (f.width - 1)

/-- All finite numbers are whole multiples of 2 to this power. -/
def minExponent : Int := 3 - (2 ^ (f.exponentBits - 1) : Nat) - f.precision

def infinity : Nat := f.topField * f.unit

/-- The pattern written for every result that is no number. -/
def quietNaN : Nat := f.infinity + f.unit / 2

/-- `m · 2 ^ e` -/
def scaled (m : Nat) (e : Int) : Rat := m * (2 : Rat) ^ e

/-- The finite number of a pattern without its sign. -/
def magnitude (pattern : Nat) : Rat :=
  let field := pattern / f.unit
  let fraction := pattern % f.unit
  if field = 0 then scaled fraction f.minExponent
  else scaled (f.unit + fraction) (f.minExponent + (field - 1 : Nat))

def decode (pattern : Nat) : Value :=
  let negative := pattern.testBit (f.width - 1)
  let m := pattern % f.signBit
  if f.infinity < m then .nan
  else if m = f.infinity then .infinite negative
  else .finite negative (f.magnitude m)

/--
The pattern of the number nearest to `n / d`, a tie going to the even pattern. Patterns are in the
order of their numbers, so a significand that rounds up to the next power of two carries into the
exponent field, and all that is too large ends at infinity.
-/
def roundMagnitude (n d : Nat) : Nat :=
  if n = 0 then 0 else
    let e := max f.minExponent (floorLog2 n d - (f.precision - 1 : Nat))
    let significand := roundHalfEven (n * 2 ^ (-e).toNat) (d * 2 ^ e.toNat)
    min f.infinity ((e - f.minExponent).toNat * f.unit + significand)

def withSign (negative : Bool) (magnitude : Nat) : Nat :=
  if negative then f.signBit + magnitude else magnitude

def encode : Value → Nat
  | .nan => f.quietNaN
  | .infinite s => f.withSign s f.infinity
  | .finite s q => f.withSign s (f.roundMagnitude q.num.toNat q.den)

end Format

/-! ## Patterns and their values -/

example : double.decode 0x3ff8000000000000 = .finite false (3 / 2) := by decide +kernel
example : double.encode (.finite true (1 / 3)) = 0xbfd5555555555555 := by decide +kernel
-- A tie goes to the even significand.
example : single.encode (.ofInt (2 ^ 24 + 1)) = 0x4b800000 := by decide +kernel
-- Half of the smallest number is a tie with zero, and all beyond the greatest one is infinite.
example : double.encode (.finite false (Format.scaled 1 (-1075))) = 0 := by decide +kernel
example : single.encode (.ofInt (2 ^ 128)) = 0x7f800000 := by decide +kernel

end Pointwise.Binary

import Pointwise.Binary.Format

/-!
# Shortest decimals

The decimal with the fewest digits among those that read back as a given floating-point number, and
of these the nearest to it.
-/

namespace Pointwise

/-- The number `coefficient · 10 ^ exponent`. -/
structure Decimal where
  coefficient : Nat
  exponent : Int
deriving DecidableEq, Repr, Inhabited

namespace Decimal

def digitCount (n : Nat) : Nat := (Nat.toDigits 10 n).length

/-- The greatest `k` with `10 ^ k ≤ q`, for positive `q`. -/
def floorLog10 (q : Rat) : Int :=
  let k : Int := digitCount q.num.toNat - digitCount q.den
  if (10 : Rat) ^ k ≤ q then k else k - 1

def value (d : Decimal) : Rat := d.coefficient * (10 : Rat) ^ d.exponent

end Decimal

namespace Binary.Format

variable (f : Format)

/-- Whether the number `q` is nearest to the finite number of the pattern, ties going to even. -/
def readsAs (pattern : Nat) (q : Rat) : Bool :=
  let v := f.magnitude pattern
  let low := (v + f.magnitude (pattern - 1)) / 2
  let high := (v + f.magnitude (pattern + 1)) / 2
  if pattern % 2 = 0 then low ≤ q && q ≤ high else low < q && q < high

/--
The multiple of `10 ^ e` that stands for the pattern: a neighbour of its number on that grid, the
nearer one if both read back, and the upper one if both are equally near.
-/
def onGrid? (pattern : Nat) (e : Int) : Option Decimal :=
  let v := f.magnitude pattern
  let lower : Decimal := ⟨(v / (10 : Rat) ^ e).floor.toNat, e⟩
  let upper : Decimal := ⟨lower.coefficient + 1, e⟩
  match f.readsAs pattern lower.value, f.readsAs pattern upper.value with
  | true, true => some (if v - lower.value < upper.value - v then lower else upper)
  | true, false => some lower
  | false, true => some upper
  | false, false => none

/-- The shortest decimal of a positive finite number. No format in use needs more than 17 digits. -/
def shortest (pattern : Nat) : Decimal :=
  let top := Decimal.floorLog10 (f.magnitude pattern)
  ((List.range 17).findSome? fun (n : Nat) => f.onGrid? pattern (top - n)).getD default

end Binary.Format

end Pointwise

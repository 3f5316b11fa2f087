import Pointwise.Decimal.Shortest

/-!
# Reading decimal numbers

Digits with at most one point and an optional exponent, read to the nearest floating-point number.
-/

namespace Pointwise.Decimal

/-- The number that a run of decimal digits stands for. -/
def ofDigits (cs : List Char) : Nat := cs.foldl (fun n c => 10 * n + (c.toNat - '0'.toNat)) 0

def isDigit (c : Char) : Bool := '0' ≤ c && c ≤ '9'

/-- The exponent after the letter `e`: an optional sign and at least one digit. -/
def exponent? : List Char → Option Int
  | '+' :: ds => unsigned? ds
  | '-' :: ds => (unsigned? ds).map (- ·)
  | ds => unsigned? ds
where
  unsigned? (ds : List Char) : Option Int :=
    if ds.isEmpty || !ds.all isDigit then none else some (ofDigits ds)

/-- A number such as `12`, `1.5`, `.5`, `5.` or `2e-3`: it has a digit before its exponent. -/
def read? (cs : List Char) : Option Decimal := do
  let whole := cs.takeWhile isDigit
  let afterWhole := cs.dropWhile isDigit
  let (fraction, afterFraction) := match afterWhole with
    | '.' :: r => (r.takeWhile isDigit, r.dropWhile isDigit)
    | r => ([], r)
  if whole.isEmpty && fraction.isEmpty then none
  let power ← match afterFraction with
    | [] => some 0
    | c :: r => if c = 'e' ∨ c = 'E' then exponent? r else none
  some ⟨ofDigits (whole ++ fraction), power - fraction.length⟩

/--
The magnitude pattern nearest to a decimal. Below `10 ^ -400` and from `10 ^ 400` on the answer is
zero or infinity in every format in use, so these powers are not multiplied out.
-/
def toMagnitude (d : Decimal) (f : Binary.Format) : Nat :=
  let top : Int := d.exponent + digitCount d.coefficient
  if d.coefficient = 0 ∨ top < -400 then 0
  else if 400 < top then f.infinity
  else f.roundMagnitude (d.coefficient * 10 ^ d.exponent.toNat) (10 ^ (-d.exponent).toNat)

example : read? ['2', '.', '5', 'e', '-', '3'] = some ⟨25, -4⟩ := by decide
example : read? ['.', '5'] = some ⟨5, -1⟩ := by decide
example : read? ['.'] = none := by decide
example : read? ['1', 'e', '+'] = none := by decide

end Pointwise.Decimal

import Pointwise.Decimal.Shortest

/-!
# Floating-point numbers as text

Where the point goes, and when a power of ten is written instead of zeros.
-/

namespace Pointwise.Decimal

/-- How numbers are laid out. -/
structure Layout where
  /-- Whether a whole number ends in `.0`. -/
  keepsPoint : Bool
  /-- The decimal exponents `[low, high)` of the numbers written without a power of ten. -/
  positional? : Option (Int × Int)

/-- Digits only, with as many zeros as it takes. -/
def Layout.plain : Layout := ⟨false, none⟩

/-- Always recognisable as no integer: `1.0`, `1e16`, `2.5e-7`. -/
def Layout.marked : Layout := ⟨true, some (-4, 16)⟩

def zeros (n : Nat) : List Char := List.replicate n '0'

/-- The digits with a point before the `point`-th of them. -/
def positional (layout : Layout) (digits : List Char) (point : Int) : List Char :=
  if point ≤ 0 then ['0', '.'] ++ zeros (-point).toNat ++ digits
  else
    let whole := point.toNat
    if digits.length ≤ whole then
      digits ++ zeros (whole - digits.length) ++ (if layout.keepsPoint then ['.', '0'] else [])
    else digits.take whole ++ '.' :: digits.drop whole

/-- One digit, the others after a point, and the power of ten. -/
def scientific (digits : List Char) (exponent : Int) : List Char :=
  let rest := digits.drop 1
  digits.take 1 ++ (if rest.isEmpty then [] else '.' :: rest) ++ 'e' :: (toString exponent).toList

/-- The text of a decimal. Zeros at the end of the coefficient are not significant. -/
def text (layout : Layout) (d : Decimal) : List Char :=
  let all := Nat.toDigits 10 d.coefficient
  let digits := (all.reverse.dropWhile (· == '0')).reverse
  let top : Int := d.exponent + all.length - 1
  match layout.positional? with
  | some (low, high) =>
    if low ≤ top ∧ top < high then positional layout digits (top + 1) else scientific digits top
  | none => positional layout digits (top + 1)

end Decimal

namespace Binary.Format

/-- The text of a pattern: the shortest decimal that reads back, or a word for what has none. -/
def render (f : Format) (layout : Decimal.Layout) (pattern : Nat) : String :=
  let m := pattern % f.signBit
  if f.infinity < m then "NaN" else
    let sign := if pattern.testBit (f.width - 1) then ['-'] else []
    let body :=
      if m = f.infinity then ['i', 'n', 'f']
      else if m = 0 then (if layout.keepsPoint then ['0', '.', '0'] else ['0'])
      else (f.shortest m).text layout
    String.ofList (sign ++ body)

example : double.render .plain 0x3e7ad7f29abcaf48 = "0.0000001" := by decide +kernel
example : double.render .marked 0x3e7ad7f29abcaf48 = "1e-7" := by decide +kernel
example : double.render .plain 0x4341c37937e08000 = "10000000000000000" := by decide +kernel
example : double.render .marked 0x4341c37937e08000 = "1e16" := by decide +kernel
example : double.render .marked 0x8000000000000000 = "-0.0" := by decide +kernel
-- Two decimals of the same length are equally near, and the upper one is taken.
example : double.render .plain 0x42e6504912c679a4 = "196272633295821.13" := by decide +kernel

end Pointwise.Binary.Format

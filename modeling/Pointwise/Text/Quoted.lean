import Pointwise.Text.Extender
import Pointwise.Text.Filler

/-!
# Quoted text

Names in messages stand between double quotes. A character that would attach to the one before it or
not be seen is written by its code point.
-/

namespace Pointwise.Text

/-- A character by its code point. -/
def escapedChar (c : Char) : List Char :=
  ['\\', 'u', '\x7b'] ++ Nat.toDigits 16 c.toNat ++ ['\x7d']

/-- A character inside quotes. -/
def quotedChar (c : Char) : List Char :=
  if c = '"' ∨ c = '\\' then ['\\', c]
  else if isExtender c ∨ isFiller c then escapedChar c
  else [c]

def quoted (s : String) : String := String.ofList ('"' :: s.toList.flatMap quotedChar ++ ['"'])

end Pointwise.Text

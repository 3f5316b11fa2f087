import Pointwise.Text.Ranges

/-!
# Fillers

The letters and numerals with the Unicode property Default_Ignorable_Code_Point: the Hangul fillers,
which are shown as nothing at all.
-/

namespace Pointwise.Text

/-- All of them, in increasing order. -/
def fillerRanges : List (Nat × Nat) := [(0x115f, 0x1160), (0x3164, 0x3164), (0xffa0, 0xffa0)]

/-- Whether a letter or numeral is invisible. -/
def isFiller (c : Char) : Bool := inRanges fillerRanges c

theorem fillerRanges_increasing : increasing fillerRanges = true := by decide

end Pointwise.Text

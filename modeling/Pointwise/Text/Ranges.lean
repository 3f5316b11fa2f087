import Pointwise.Instances

/-!
# Sets of characters as ranges of code points
-/

namespace Pointwise.Text

/-- Whether a character lies in one of the ranges, whose ends both belong to them. -/
def inRanges (ranges : List (Nat × Nat)) (c : Char) : Bool :=
  ranges.any fun (low, high) => low ≤ c.toNat && c.toNat ≤ high

/-- Whether the ranges are not empty and follow each other with gaps in between. -/
def increasing : List (Nat × Nat) → Bool
  | [] => true
  | [(low, high)] => low ≤ high
  | (low, high) :: (low', high') :: rest =>
    low ≤ high && high + 1 < low' && increasing ((low', high') :: rest)

theorem inRanges_cons (low high : Nat) (rest : List (Nat × Nat)) (c : Char) :
    inRanges ((low, high) :: rest) c = ((low ≤ c.toNat && c.toNat ≤ high) || inRanges rest c) := rfl

end Pointwise.Text

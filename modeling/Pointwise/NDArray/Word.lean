import Pointwise.Instances

/-!
# Machine words

Sizes and distances are exact numbers in this library. Where they are told in 64-bit words, they are
taken modulo `2 ^ 64` and read in two's complement. Only an array without elements has strides that
this changes.
-/

namespace Pointwise

/-- A size or distance as a signed 64-bit word. -/
def signedWord (n : Int) : Int := n.bmod (2 ^ (64 : Nat))

theorem signedWord_of_fits {n : Int} (low : -2 ^ (63 : Nat) ≤ n) (high : n < 2 ^ (63 : Nat)) :
    signedWord n = n :=
  Int.bmod_eq_of_le (by simpa using low) (by simpa using high)

end Pointwise

import Pointwise.Binary.Format

/-!
# Arithmetic on patterns

Each operation decodes its operands, works on the exact values and rounds once. The patterns are
words; a format is given for the reading of them.
-/

namespace Pointwise.Binary

/-- The comparisons that a program can make. -/
inductive Comparison where
  | eq | ne | lt | le | gt | ge
deriving DecidableEq, Repr

namespace Comparison

/-- Whether a comparison holds, given the order of its operands. Unordered operands only differ. -/
def holds : Comparison → Option Ordering → Bool
  | .eq, o => o == some .eq
  | .ne, o => o != some .eq
  | .lt, o => o == some .lt
  | .le, o => o == some .lt || o == some .eq
  | .gt, o => o == some .gt
  | .ge, o => o == some .gt || o == some .eq

end Comparison

namespace Format

variable (f : Format) {w : Nat}

def value (x : BitVec w) : Value := f.decode x.toNat

def pattern (w : Nat) (v : Value) : BitVec w := BitVec.ofNat w (f.encode v)

def add (x y : BitVec w) : BitVec w := f.pattern w ((f.value x).add (f.value y))
def sub (x y : BitVec w) : BitVec w := f.pattern w ((f.value x).sub (f.value y))
def mul (x y : BitVec w) : BitVec w := f.pattern w ((f.value x).mul (f.value y))
def div (x y : BitVec w) : BitVec w := f.pattern w ((f.value x).div (f.value y))

/-- Flips the sign bit, also of a pattern that is no number. -/
def neg (x : BitVec w) : BitVec w := x ^^^ BitVec.ofNat w f.signBit

def isNaN (x : BitVec w) : Bool := (f.value x).isNaN

/-- Whether the comparison holds between the numbers of two patterns. -/
def compare (c : Comparison) (x y : BitVec w) : Bool := c.holds ((f.value x).order? (f.value y))

/-- The greater number, where the negative zero is below the positive one. -/
def maximum (x y : BitVec w) : BitVec w :=
  match (f.value x).order? (f.value y) with
  | none => f.pattern w .nan
  | some .gt => x
  | some .lt => y
  | some .eq => if (f.value x).isNegative then y else x

/-- The smaller number, where the negative zero is below the positive one. -/
def minimum (x y : BitVec w) : BitVec w :=
  match (f.value x).order? (f.value y) with
  | none => f.pattern w .nan
  | some .lt => x
  | some .gt => y
  | some .eq => if (f.value x).isNegative then x else y

/-- The first operand if it is greater, else the second, unless one of them is no number. -/
def pickGreater (x y : BitVec w) : BitVec w :=
  match (f.value x).order? (f.value y) with
  | none => f.pattern w .nan
  | some .gt => x
  | some _ => y

/-- The first operand if it is smaller, else the second, unless one of them is no number. -/
def pickSmaller (x y : BitVec w) : BitVec w :=
  match (f.value x).order? (f.value y) with
  | none => f.pattern w .nan
  | some .lt => x
  | some _ => y

/-- The number of another format nearest to the number of a pattern. -/
def convert (g : Format) (v : Nat) (x : BitVec w) : BitVec v := g.pattern v (f.value x)

/-- The number nearest to an integer. -/
def ofInt (w : Nat) (n : Int) : BitVec w := f.pattern w (.ofInt n)

end Format

end Pointwise.Binary

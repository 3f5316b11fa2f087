import Pointwise.Host

/-!
# A stack machine

Straight-line code with branches, on a stack of 64-bit words. Every instruction names the machine
types that it works on. It reads them from the low bits of its words and clears the bits above.
-/

namespace Pointwise.Native

open Binary (Comparison Format)

/-- A machine type: an integer without a sign of its own, or a floating-point number. -/
inductive Lane where
  | i8 | i16 | i32 | i64 | f32 | f64
deriving DecidableEq, Repr

namespace Lane

def width : Lane → Nat
  | i8 => 8
  | i16 => 16
  | i32 | f32 => 32
  | i64 | f64 => 64

def format : Lane → Format
  | f32 => Binary.single
  | _ => Binary.double

def read (lane : Lane) (w : BitVec 64) : BitVec lane.width := w.setWidth _

/-- The integer in the low bits of a word, in two's complement if it is signed. -/
def readInt (lane : Lane) (signed : Bool) (w : BitVec 64) : Int :=
  if signed then (lane.read w).toInt else (lane.read w).toNat

def least (lane : Lane) (signed : Bool) : Int := if signed then -(2 ^ (lane.width - 1) : Nat) else 0

def greatest (lane : Lane) (signed : Bool) : Int :=
  if signed then (2 ^ (lane.width - 1) : Nat) - 1 else (2 ^ lane.width : Nat) - 1

end Lane

/-- A word with the given low bits and zeros above. -/
def word {n : Nat} (x : BitVec n) : BitVec 64 := x.setWidth 64

/-- Instructions that take one word. -/
inductive UnaryOp where
  | ineg (lane : Lane)
  | fneg (lane : Lane)
  /-- Exchanges the truth values. -/
  | flip
  | extend (signed : Bool) (source target : Lane)
  | reduce (target : Lane)
  | convert (source target : Lane)
  /-- The whole part, kept within the range of the target. -/
  | truncate (source : Lane) (signed : Bool) (target : Lane)
  /-- The nearest number to a 64-bit integer. -/
  | ofInt (signed : Bool) (target : Lane)
deriving DecidableEq, Repr

/-- Instructions that take two words. -/
inductive BinaryOp where
  | iadd (lane : Lane) | isub (lane : Lane) | imul (lane : Lane)
  | imax (signed : Bool) (lane : Lane) | imin (signed : Bool) (lane : Lane)
  | icompare (c : Comparison) (signed : Bool) (lane : Lane)
  | fadd (lane : Lane) | fsub (lane : Lane) | fmul (lane : Lane) | fdiv (lane : Lane)
  | fmax (lane : Lane) | fmin (lane : Lane)
  | fcompare (c : Comparison) (lane : Lane)
deriving DecidableEq, Repr

def truth (b : Bool) : BitVec 64 := word (BitVec.ofBool b)

def UnaryOp.apply : UnaryOp → BitVec 64 → BitVec 64
  | ineg l, x => word (-l.read x)
  | fneg l, x => word (l.format.neg (l.read x))
  | flip, x => word (Lane.i8.read x ^^^ 1)
  | extend signed s t, x => word (BitVec.ofInt t.width (s.readInt signed x))
  | reduce t, x => word (t.read x)
  | convert s t, x => word (s.format.convert t.format t.width (s.read x))
  | truncate s signed t, x =>
    word (BitVec.ofInt t.width
      ((s.format.value (s.read x)).truncateWithin (t.least signed) (t.greatest signed)))
  | ofInt signed t, x => word (t.format.ofInt t.width (Lane.i64.readInt signed x))

def BinaryOp.apply : BinaryOp → BitVec 64 → BitVec 64 → BitVec 64
  | iadd l, x, y => word (l.read x + l.read y)
  | isub l, x, y => word (l.read x - l.read y)
  | imul l, x, y => word (l.read x * l.read y)
  | imax signed l, x, y =>
    word (l.read (if l.readInt signed x ≤ l.readInt signed y then y else x))
  | imin signed l, x, y =>
    word (l.read (if l.readInt signed x ≤ l.readInt signed y then x else y))
  | icompare c signed l, x, y =>
    truth (c.holds (some (compare (l.readInt signed x) (l.readInt signed y))))
  | fadd l, x, y => word (l.format.add (l.read x) (l.read y))
  | fsub l, x, y => word (l.format.sub (l.read x) (l.read y))
  | fmul l, x, y => word (l.format.mul (l.read x) (l.read y))
  | fdiv l, x, y => word (l.format.div (l.read x) (l.read y))
  | fmax l, x, y => word (l.format.maximum (l.read x) (l.read y))
  | fmin l, x, y => word (l.format.minimum (l.read x) (l.read y))
  | fcompare c l, x, y => truth (l.format.compare c (l.read x) (l.read y))

inductive Instr where
  /-- Pushes the argument in a slot. -/
  | load (slot : Nat) (lane : Lane)
  | const (w : BitVec 64)
  | unary (op : UnaryOp)
  /-- Takes the second operand from the top and the first from below it. -/
  | binary (op : BinaryOp)
  /-- Takes a truth value and goes on with one of two pieces of code. -/
  | branch (onTrue onFalse : List Instr)
  /-- Takes the arguments of a function, the last one from the top. -/
  | call (f : NativeFn)

abbrev Code := List Instr
abbrev Stack := List (BitVec 64)

/-- The word at the top and the words below it. An empty stack is full of zeros. -/
def Stack.pop : Stack → BitVec 64 × Stack
  | [] => (0, [])
  | w :: s => (w, s)

/-- A function applied to the words at the top of the stack. -/
def callOn (f : NativeFn) (s : Stack) : Stack :=
  match f with
  | .unary f => f s.pop.1 :: s.pop.2
  | .binary f => f s.pop.2.pop.1 s.pop.1 :: s.pop.2.pop.2
  | .ternary f => f s.pop.2.pop.2.pop.1 s.pop.2.pop.1 s.pop.1 :: s.pop.2.pop.2.pop.2

mutual

def exec (slots : List (BitVec 64)) (s : Stack) : Instr → Stack
  | .load i lane => word (lane.read (slots.getD i 0)) :: s
  | .const w => w :: s
  | .unary op => op.apply s.pop.1 :: s.pop.2
  | .binary op => op.apply s.pop.2.pop.1 s.pop.1 :: s.pop.2.pop.2
  | .branch onTrue onFalse =>
    if Lane.i8.read s.pop.1 = 0 then run slots s.pop.2 onFalse else run slots s.pop.2 onTrue
  | .call f => callOn f s

def run (slots : List (BitVec 64)) (s : Stack) : Code → Stack
  | [] => s
  | i :: code => run slots (exec slots s i) code

end

theorem run_append (slots : List (BitVec 64)) (s : Stack) (k l : Code) :
    run slots s (k ++ l) = run slots (run slots s k) l := by
  induction k generalizing s with
  | nil => simp [run]
  | cons i k ih => simp [run, ih]

end Pointwise.Native

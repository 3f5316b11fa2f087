import Pointwise.Instances

/-!
# Exact values of floating-point numbers

The extended numbers that floating-point patterns stand for, with exact arithmetic on them. A zero
keeps its sign. Nothing is rounded here.
-/

namespace Pointwise.Binary

/-- What a pattern stands for: no number, an infinity, or a sign and a magnitude. -/
inductive Value where
  | nan
  | infinite (negative : Bool)
  | finite (negative : Bool) (magnitude : Rat)
deriving DecidableEq, Repr

namespace Value

/-- The number `q`, negated if `negative` is set. -/
def signed (negative : Bool) (q : Rat) : Rat := if negative then -q else q

/-- A number as a value. Zero is positive. -/
def ofRat (q : Rat) : Value := .finite (decide (q < 0)) (signed (decide (q < 0)) q)

def ofInt (n : Int) : Value := ofRat n

def isNaN : Value → Bool
  | nan => true
  | _ => false

/-- The sign bit. -/
def isNegative : Value → Bool
  | nan => false
  | infinite s => s
  | finite s _ => s

def neg : Value → Value
  | nan => nan
  | infinite s => .infinite !s
  | finite s q => .finite (!s) q

/-- Opposite infinities have no sum, and a sum of zero is negative only if both terms are. -/
def add : Value → Value → Value
  | nan, _ | _, nan => nan
  | infinite s, infinite t => if s = t then .infinite s else nan
  | infinite s, finite .. => .infinite s
  | finite .., infinite t => .infinite t
  | finite s p, finite t q =>
    let sum := signed s p + signed t q
    if sum = 0 then .finite (s && t) 0 else ofRat sum

def sub (x y : Value) : Value := x.add y.neg

/-- Zero times infinity has no value. -/
def mul : Value → Value → Value
  | nan, _ | _, nan => nan
  | infinite s, infinite t => .infinite (s ^^ t)
  | infinite s, finite t q | finite t q, infinite s => if q = 0 then nan else .infinite (s ^^ t)
  | finite s p, finite t q => .finite (s ^^ t) (p * q)

/-- A nonzero number over zero is infinite; zero or infinity over itself has no value. -/
def div : Value → Value → Value
  | nan, _ | _, nan => nan
  | infinite _, infinite _ => nan
  | infinite s, finite t _ => .infinite (s ^^ t)
  | finite s _, infinite t => .finite (s ^^ t) 0
  | finite s p, finite t q =>
    if q = 0 then (if p = 0 then nan else .infinite (s ^^ t)) else .finite (s ^^ t) (p / q)

/-- The order of two numbers. A value that is no number is not ordered, and the zeros are equal. -/
def order? : Value → Value → Option Ordering
  | nan, _ | _, nan => none
  | infinite s, infinite t => some (compare (!s) (!t))
  | infinite s, finite .. => some (if s then .lt else .gt)
  | finite .., infinite t => some (if t then .gt else .lt)
  | finite s p, finite t q =>
    let a := signed s p
    let b := signed t q
    some (if a < b then .lt else if a = b then .eq else .gt)

/-- The whole part, or `none` for what is not finite. -/
def truncate? : Value → Option Int
  | finite s q => some (if s then -q.floor else q.floor)
  | _ => none

/-- The whole part within `lo` and `hi`: an infinity is the bound on its side, no number is 0. -/
def truncateWithin (lo hi : Int) : Value → Int
  | nan => 0
  | infinite s => if s then lo else hi
  | finite s q => max lo (min hi (if s then -q.floor else q.floor))

end Value

end Pointwise.Binary

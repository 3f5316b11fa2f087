import Pointwise.Host

/-!
# Stock host functions

A small collection of host functions to register under a name of choice.
-/

namespace Pointwise.HostFn

open Binary (double)

def twice : HostFn := .native (.unary fun x => double.mul x (double.ofInt 64 2))
def negate : HostFn := .native (.unary double.neg)
def reciprocal : HostFn := .native (.unary (double.div (double.ofInt 64 1)))
def difference : HostFn := .native (.binary double.sub)
def ratio : HostFn := .native (.binary double.div)

/-- The product of the first two plus the third, rounded twice. -/
def mulAdd : HostFn := .native (.ternary fun x y z => double.add (double.mul x y) z)

def firstArg (args : List Scalar) : Scalar := args.headD (.bool false)

/-- The first argument as a number within 0 and 1. -/
def clip (arity : UInt8) (ret : DType) : HostFn := .boxed arity ret fun args =>
  let x := (firstArg args).toDouble
  .ok (.float64 (if double.compare .lt x 0 then 0
    else if double.compare .gt x (double.ofInt 64 1) then double.ofInt 64 1 else x))

/-- The place of the first argument's type in the promotion order. -/
def typeOrder (arity : UInt8) (ret : DType) : HostFn := .boxed arity ret fun args =>
  .ok (.int64 (firstArg args).dtype.order)

def first (arity : UInt8) (ret : DType) : HostFn := .boxed arity ret fun args =>
  .ok (firstArg args)

def count (arity : UInt8) (ret : DType) : HostFn := .boxed arity ret fun args =>
  .ok (.int64 args.length)

/-- The sum of the arguments from left to right, starting from zero. -/
def sum (arity : UInt8) (ret : DType) : HostFn := .boxed arity ret fun args =>
  .ok (.float64 (args.foldl (fun s a => double.add s a.toDouble) 0))

/-- The first argument, refused if it is negative. -/
def nonNegative (arity : UInt8) (ret : DType) : HostFn := .boxed arity ret fun args =>
  if double.compare .lt (firstArg args).toDouble 0 then
    .error (.typing (.refused "negative argument"))
  else .ok (firstArg args)

end Pointwise.HostFn

import Pointwise.Loop

/-!
# Adapters

A loop behind element types of the caller's choice.
-/

namespace Pointwise

/-- A loop whose arguments and result are converted from and to outer types. -/
structure Adapter where
  outerArgs : List DType
  outerRet : DType
  loop : Loop

namespace Adapter

/-- An adapter for a signature with as many inputs as the loop, whose return type is the default. -/
def make (outer : Signature) (l : Loop) : Except Error Adapter :=
  if outer.args.length ≠ l.args.length then
    .error (.argCount l.symbol (.exactly l.args.length) outer.args.length)
  else .ok ⟨outer.args, outer.ret.getD l.ret, l⟩

variable (a : Adapter)

def outer : Signature := ⟨a.outerArgs, some a.outerRet⟩

/-- Arguments in the loop's types, by way of the outer ones. -/
def convert (values : List Scalar) : List Scalar :=
  List.zipWith Scalar.cast (List.zipWith Scalar.cast values a.outerArgs) a.loop.args

/-- Runs the loop on values of any types. -/
def call (values : List Scalar) : Except Error Scalar := do
  if values.length ≠ a.outerArgs.length then
    throw (.argCount a.loop.symbol (.exactly a.outerArgs.length) values.length)
  return (← a.loop.invoke (a.convert values)).cast a.outerRet

end Adapter

end Pointwise

import Pointwise.DType

/-!
# Signatures

The element types of a function's inputs and, where it is asked for, of its result.
-/

namespace Pointwise

structure Signature where
  args : List DType
  ret : Option DType
deriving DecidableEq, Repr

namespace Signature

/-- The form `float64(int32, int32)`, or `(int32, int32)` with no return type. -/
def text (s : Signature) : String :=
  (s.ret.elim "" DType.name) ++ "(" ++ ", ".intercalate (s.args.map DType.name) ++ ")"

/-- The loop string `ii->d`. A question mark stands for a return type that is not given. -/
def loopString (s : Signature) : String :=
  String.ofList (s.args.map DType.letter ++ ['-', '>', s.ret.elim '?' DType.letter])

end Signature

end Pointwise

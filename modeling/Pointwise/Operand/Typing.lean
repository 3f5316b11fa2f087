import Pointwise.Error

/-!
# Types of calls

What the types of a call's operands say about its result, before a loop is chosen.
-/

namespace Pointwise

/-- The operands of a call: the inputs, and the outputs if they are given too. -/
structure CallShape where
  dtypes : List DType
  givenOutputs : List OperandType
  /-- The rank of the common shape. -/
  rank : Nat
  order : MemoryOrder
deriving DecidableEq, Repr

/-- The types of a call's results and of its operands. -/
structure CallSignature where
  outputs : List OperandType
  args : List OperandType
deriving DecidableEq, Repr

/-- The memory order of a result: the one that all arrays share, row-major if there are none. -/
def commonOrder (args : List OperandType) : MemoryOrder :=
  match args.filterMap OperandType.order? with
  | [] => .rowMajor
  | o :: os => if o ≠ .irregular ∧ os.all (· == o) then o else .irregular

/-- Types the operands of a function with `nin` inputs, all or none of whose outputs are given. -/
def CallShape.of (name : String) (nin nout : Nat) (args : List OperandType) :
    Except Error CallShape := do
  if args.length ≠ nin ∧ args.length ≠ nin + nout then
    throw (.argCount name (.either nin (nin + nout)) args.length)
  let outputs := args.drop nin
  if let some bad := outputs.find? (!·.isArray) then
    throw (.invalidOperand (.outputType name bad))
  return ⟨args.map OperandType.dtype, outputs, (args.map OperandType.rank).foldl max 0,
    commonOrder args⟩

namespace CallSignature

def ret? (s : CallSignature) : Option OperandType := s.outputs.head?

def text (s : CallSignature) : String :=
  "(" ++ ", ".intercalate (s.args.map OperandType.text) ++ ") -> " ++
    ", ".intercalate (s.outputs.map OperandType.text)

end CallSignature

end Pointwise

import Pointwise.Broadcast
import Pointwise.Ufunc

/-!
# Calls

A call chooses the loop for the element types of its operands and runs it on scalars, or on arrays
element by element.
-/

namespace Pointwise.Ufunc

/-- The results of a call: the given outputs, or what the return type of the loop makes them. -/
def outputTypes (u : Ufunc) (shape : CallShape) (ret : DType) : Except Error (List OperandType) :=
  if !shape.givenOutputs.isEmpty then .ok shape.givenOutputs
  else if u.nout = 1 then
    .ok [if 0 < shape.rank then .array ret shape.rank shape.order else .scalar ret]
  else .error (.severalOutputs u.name u.nout)

/-- Types a call and finds its loop, which is compiled if the function is not frozen. -/
def resolve (args : List OperandType) : Action (CallSignature × Loop) := do
  let u ← get
  let shape ← liftM (CallShape.of u.name u.nin u.nout args)
  let dtypes := shape.dtypes.take (shape.dtypes.length - shape.givenOutputs.length)
  let l ← match u.find? dtypes with
    | some l => pure l
    | none =>
      if u.frozen then throw (.noMatchingLoop u.name args)
      compileFor dtypes none
  let outputs ← liftM (u.outputTypes shape l.ret)
  return (⟨outputs, args⟩, l)

/-- Types a call. -/
def typeCall (args : List OperandType) : Action CallSignature := do return (← resolve args).1

/-- The adapter of a loop to a signature, made now if it is not there. -/
def adapterFor (outer : Signature) (l : Loop) : Action Adapter := do
  let u ← get
  let key : AdapterKey := (outer.args, outer.ret.getD l.ret, l.args)
  match u.adapters.lookup key with
  | some a => return a
  | none =>
    let a ← liftM (Adapter.make outer l)
    set { u with adapters := (key, a) :: u.adapters }
    return a

/-- Runs an adapter on the inputs of a call. -/
def runCall (name : String) (a : Adapter) (ret : OperandType) (inputs outputs : List Operand) :
    Except Error Operand :=
  match outputs with
  | .array out :: _ => do return .array (← Broadcast.fill inputs out a.call)
  | _ :: _ => .error (.invalidOperand (.outputNotArray name))
  | [] =>
    if ret.isArray then do
      let shape ← Broadcast.operands inputs
      return .array (← Broadcast.fill inputs (.zeros ret.dtype shape) a.call)
    else do return .scalar (← a.call (inputs.map Operand.value))

/-- Calls the function. Scalars give a scalar; arrays are broadcast and give an array. -/
def call (args : List Operand) (keywords : List (String × Operand)) : Action Operand := do
  let args ← liftM (mergeKeywords args keywords)
  let types := args.map Operand.type
  let (signature, l) ← resolve types
  let u ← get
  let some ret := signature.ret? | throw (.internal (.noOutput u.name))
  let outer : Signature := ⟨(types.take u.nin).map OperandType.dtype, some ret.dtype⟩
  let a ← adapterFor outer l
  liftM (runCall u.name a ret (args.take u.nin) (args.drop u.nin))

/-! ## Reduction -/

/-- The types that the last step of a fold was adapted to, and its adapter. -/
abbrev LastStep := Option ((DType × DType) × Adapter)

/-- An action on the function alone. -/
def onUfunc {α : Type} (act : Action α) : Stateful (Ufunc × LastStep) α :=
  ExceptT.mk do
    let (u, last) ← get
    let (result, u) := act.run.run u
    set (u, last)
    return result

/-- The adapter for a step of a fold whose result has the type of the accumulator. -/
def foldAdapter (acc elem : DType) : Action Adapter := do
  let (_, l) ← resolve [.scalar acc, .scalar elem]
  adapterFor ⟨[acc, elem], some acc⟩ l

/-- One step of a fold. The adapter of the last step serves again if the types are the same. -/
def foldStep (total x : Scalar) : Stateful (Ufunc × LastStep) Scalar := do
  let key := (total.dtype, x.dtype)
  let (_, last) ← get
  let fresh : Stateful (Ufunc × LastStep) Adapter := do
    let a ← onUfunc (foldAdapter key.1 key.2)
    modify fun (u, _) => (u, some (key, a))
    return a
  let a ← match last with
    | some (k, a) => if k = key then pure a else fresh
    | none => fresh
  liftM (a.call [total, x])

/-- Reduces an array with a function of two inputs. -/
def reduce (a : NDArray) (options : ReduceOptions) : Action Reduced := do
  let u ← get
  if u.nout ≠ 1 then throw (.severalOutputs u.name u.nout)
  if u.nin ≠ 2 then throw (.argCount (u.name ++ ".reduce") .binaryFunction u.nin)
  let reducer : Reducer (Ufunc × LastStep) := ⟨u.name, u.identity, foldStep⟩
  ExceptT.mk do
    let (result, (after, _)) := (reducer.run a options).run.run (u, none)
    set after
    return result

end Pointwise.Ufunc

import Pointwise.Native.Lowering

/-!
# Loops

A loop is a definition compiled for the element types of its inputs: to machine code where that is
possible, and to a boxed kernel where a boxed host function is called or the caller asks for one.
-/

namespace Pointwise

/-- How definitions are compiled. -/
structure Options where
  /-- Fail rather than fall back to boxed evaluation. -/
  nativeOnly : Bool
  /-- Always evaluate on boxed scalars. -/
  boxedOnly : Bool
deriving DecidableEq, Repr

def Options.default : Options := ⟨false, false⟩

/-- A definition evaluated on scalars, with the types that it was checked for. -/
structure BoxedKernel where
  definition : Definition
  hosts : HostTable
  args : List DType
  ret : DType

/-- Evaluates the body on arguments of any types, which are converted first. -/
def BoxedKernel.call (k : BoxedKernel) (values : List Scalar) : Except Error Scalar := do
  if values.length ≠ k.args.length then
    throw (.argCount k.definition.name (.exactly k.args.length) values.length)
  let body ← k.definition.body
  (k.definition.scope k.hosts k.args).evalAs (List.zipWith Scalar.cast values k.args) body k.ret

/-- What runs when a loop is invoked. -/
inductive Entry where
  | native (code : Native.Code)
  | boxed (kernel : BoxedKernel)

def Entry.isNative : Entry → Bool
  | native _ => true
  | boxed _ => false

/-- A compiled definition. -/
structure Loop where
  args : List DType
  ret : DType
  entry : Entry
  /-- The name of the compiled code, made unique by a suffix that messages show as `<id>`. -/
  symbol : String
  /-- The host functions that the definition calls. -/
  imports : List (String × UInt8)

namespace Loop

variable (l : Loop)

def signature : Signature := ⟨l.args, some l.ret⟩

def isBoxed : Bool := !l.entry.isNative

/-- Compiles a definition for the given argument types. A missing return type is inferred. -/
def compile (d : Definition) (hosts : HostTable) (options : Options) (args : List DType)
    (ret : Option DType) : Except Error Loop := do
  if options.nativeOnly && options.boxedOnly then
    throw (.lowering .conflictingModes)
  let (body, ty) ← d.check hosts args
  let scope := d.scope hosts args
  let ret := ret.getD ty.dtype
  let symbol := d.name ++ "_<id>"
  if options.boxedOnly || scope.usesBoxed body then
    if options.nativeOnly then
      throw (.lowering (.needsBoxed d.name))
    return ⟨args, ret, .boxed ⟨d, hosts, args, ret⟩, symbol, d.hostCalls⟩
  let code ← scope.lowerAs body ret
  return ⟨args, ret, .native code, symbol, d.hostCalls⟩

/-- The slot of an argument: its bytes, filled up with zeros. -/
def slot (s : Scalar) : BitVec 64 := BitVec.ofNat 64 (Scalar.ofLittleEndian s.toBytes)

/-- The element that machine code leaves at the top of the stack. -/
def result (ret : DType) (stack : Native.Stack) : Scalar :=
  Scalar.ofBytes ret (Scalar.littleEndian ret.itemsize stack.pop.1.toNat)

/-- The first argument whose type is not the expected one, with both types. -/
def firstMismatch? : List Scalar → List DType → Option (DType × DType)
  | s :: ss, t :: ts => if s.dtype = t then firstMismatch? ss ts else some (s.dtype, t)
  | _, _ => none

/-- Runs a loop on values that already have its argument types. -/
def invoke (values : List Scalar) : Except Error Scalar := do
  if values.length ≠ l.args.length then
    throw (.argCount l.symbol (.exactly l.args.length) values.length)
  if let some (given, expected) := firstMismatch? values l.args then
    throw (.internal (.argumentType given expected))
  match l.entry with
  | .native code => return result l.ret (Native.run (values.map slot) [] code)
  | .boxed kernel => return (← kernel.call values).cast l.ret

end Loop

end Pointwise

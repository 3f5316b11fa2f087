import Pointwise.Scalar.Arith

/-!
# Host functions

Functions outside a definition that its expressions may call. They are found by their name and the
number of their arguments.
-/

namespace Pointwise

/-- A function of double patterns, which machine code can call. -/
inductive NativeFn where
  | unary (f : BitVec 64 → BitVec 64)
  | binary (f : BitVec 64 → BitVec 64 → BitVec 64)
  | ternary (f : BitVec 64 → BitVec 64 → BitVec 64 → BitVec 64)

namespace NativeFn

def arity : NativeFn → UInt8
  | unary _ => 1
  | binary _ => 2
  | ternary _ => 3

/-- The result for a list of arguments of the right length. -/
def result? : NativeFn → List (BitVec 64) → Option (BitVec 64)
  | unary f, [x] => some (f x)
  | binary f, [x, y] => some (f x y)
  | ternary f, [x, y, z] => some (f x y z)
  | _, _ => none

def call (f : NativeFn) (args : List (BitVec 64)) : Except Error (BitVec 64) :=
  match f.result? args with
  | some y => .ok y
  | none => .error (.internal (.hostArity f.arity args.length))

end NativeFn

/-- A host function. A boxed one takes scalars of any types and may fail. -/
inductive HostFn where
  | native (f : NativeFn)
  | boxed (arity : UInt8) (ret : DType) (f : List Scalar → Except Error Scalar)

namespace HostFn

def arity : HostFn → UInt8
  | native f => f.arity
  | boxed n .. => n

def isNative : HostFn → Bool
  | native _ => true
  | boxed .. => false

def ret : HostFn → DType
  | native _ => .float64
  | boxed _ t _ => t

/-- The type that all arguments are converted to, if there is one. -/
def argType? : HostFn → Option DType
  | native _ => some .float64
  | boxed .. => none

end HostFn

structure HostTable where
  entries : List ((String × UInt8) × HostFn)

namespace HostTable

def empty : HostTable := ⟨[]⟩

def get? (hosts : HostTable) (name : String) (arity : UInt8) : Option HostFn :=
  hosts.entries.lookup (name, arity)

/-- One more function, unless there is one of that name and arity. -/
def register (hosts : HostTable) (name : String) (f : HostFn) : Except Error HostTable :=
  if (hosts.get? name f.arity).isSome then .error (.functionExists name f.arity)
  else .ok ⟨((name, f.arity), f) :: hosts.entries⟩

def size (hosts : HostTable) : Nat := hosts.entries.length

end HostTable

end Pointwise

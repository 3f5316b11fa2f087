import Pointwise.Boxed
import Pointwise.Native.Machine
import Pointwise.Scalar.Encoding

/-!
# Compiling expressions to machine code

Every part of a checked expression becomes code that pushes its value. Truth values are bytes that
hold 0 or 1.
-/

namespace Pointwise

def DType.lane : DType → Native.Lane
  | bool | int8 | uint8 => .i8
  | int16 | uint16 => .i16
  | int32 | uint32 => .i32
  | int64 | uint64 => .i64
  | float32 => .f32
  | float64 => .f64

namespace Native

/-- Keeps a 32-bit integer within the range of a narrow type. -/
def clampCode (t : DType) : Code :=
  let bound (n : Int) : Instr := .const (word (BitVec.ofInt 32 n))
  (if t.isSigned then [bound t.least, .binary (.imax true .i32)] else []) ++
    [bound t.greatest, .binary (.imin t.isSigned .i32)]

/--
Code that converts the element at the top of the stack. A number becomes a narrow integer by way of
a 32-bit one, and an integer becomes a number by way of a 64-bit one.
-/
def castCode (s t : DType) : Code :=
  if s = t then []
  else
    match s.kind, t.kind with
    | .float, .bool => [.const 0, .binary (.fcompare .ne s.lane)]
    | _, .bool => [.const 0, .binary (.icompare .ne false s.lane)]
    | .float, .float => [.unary (.convert s.lane t.lane)]
    | .float, _ =>
      if 32 ≤ t.bits then [.unary (.truncate s.lane t.isSigned t.lane)]
      else .unary (.truncate s.lane t.isSigned .i32) :: clampCode t ++ [.unary (.reduce t.lane)]
    | _, .float =>
      (if s.bits < 64 then [.unary (.extend s.isSigned s.lane .i64)] else []) ++
        [.unary (.ofInt s.isSigned t.lane)]
    | _, _ =>
      if s.bits < t.bits then [.unary (.extend s.isSigned s.lane t.lane)]
      else if t.bits < s.bits then [.unary (.reduce t.lane)]
      else []

/-- The instruction of an operation on two elements of a type. -/
def arithInstr (name : String) (op : ArithOp) (t : DType) : Except Error Instr :=
  match op, t.kind with
  | .add, .float => .ok (.binary (.fadd t.lane))
  | .sub, .float => .ok (.binary (.fsub t.lane))
  | .mul, .float => .ok (.binary (.fmul t.lane))
  | .div, .float => .ok (.binary (.fdiv t.lane))
  | .max, .float => .ok (.binary (.fmax t.lane))
  | .min, .float => .ok (.binary (.fmin t.lane))
  | .add, _ => .ok (.binary (.iadd t.lane))
  | .sub, _ => .ok (.binary (.isub t.lane))
  | .mul, _ => .ok (.binary (.imul t.lane))
  | .div, _ => .error (.lowering (.integerDivision name))
  | .max, _ => .ok (.binary (.imax t.isSigned t.lane))
  | .min, _ => .ok (.binary (.imin t.isSigned t.lane))

def compareInstr (c : Binary.Comparison) (t : DType) : Instr :=
  if t.isFloat then .binary (.fcompare c t.lane) else .binary (.icompare c t.isSigned t.lane)

def negInstr (t : DType) : Except Error Instr :=
  match t.kind with
  | .bool => .error (.typing .negatedBool)
  | .float => .ok (.unary (.fneg t.lane))
  | _ => .ok (.unary (.ineg t.lane))

end Native

namespace Scope

open Native

variable (Γ : Scope)

/--
Code for an expression in another type: a literal is converted here, all else when the code runs.
-/
def codeAs (e : Expr) (t : DType) (code : Except Error Code) : Except Error Code :=
  match e.literal? with
  | some s => .ok [.const (s.cast t).toWord]
  | none => do
    let s ← Γ.typeOf e
    let k ← code
    .ok (k ++ castCode s.dtype t)

/-- The function that machine code calls for a host function, if it takes that many arguments. -/
def linked (name : String) (argCount : Nat) : HostFn → Except Error NativeFn
  | .native f => if f.arity.toNat = argCount then .ok f else .error (.lowering .invalidCode)
  | .boxed .. => .error (.lowering (.boxedHost name (UInt8.ofNat argCount)))

mutual

/-- Code that pushes the value of an expression. -/
def lower : Expr → Except Error Code
  | .int n => do
    let t ← Γ.typeOf (.int n)
    .ok [.const ((Scalar.int64 n).cast t.dtype).toWord]
  | .float p => do
    let t ← Γ.typeOf (.float p)
    .ok [.const ((Scalar.float64 p).cast t.dtype).toWord]
  | .bool b => do
    let t ← Γ.typeOf (.bool b)
    .ok [.const ((Scalar.bool b).cast t.dtype).toWord]
  | .var x => do
    let t ← Γ.typeOf (.var x)
    (Γ.index? x).elim (.error (.unknownIdent x)) fun i => .ok [.load i t.dtype.lane]
  | .neg x => do
    let t ← Γ.typeOf (.neg x)
    let i ← negInstr t.dtype
    let k ← Γ.codeAs x t.dtype (lower x)
    .ok (k ++ [i])
  | .not x => do
    let _ ← Γ.typeOf (.not x)
    let k ← Γ.codeAs x .bool (lower x)
    .ok (k ++ [.unary .flip])
  | .arith op a b => do
    let t ← Γ.typeOf (.arith op a b)
    let k ← Γ.codeAs a t.dtype (lower a)
    let l ← Γ.codeAs b t.dtype (lower b)
    let i ← arithInstr Γ.name op t.dtype
    .ok (k ++ l ++ [i])
  | .compare c a b => do
    let t ← Γ.commonType a b
    let k ← Γ.codeAs a t (lower a)
    let l ← Γ.codeAs b t (lower b)
    .ok (k ++ l ++ [compareInstr c t])
  | .and a b => do
    let _ ← Γ.typeOf (.and a b)
    let k ← Γ.codeAs a .bool (lower a)
    let l ← Γ.codeAs b .bool (lower b)
    .ok (k ++ [.branch l [.const 0]])
  | .or a b => do
    let _ ← Γ.typeOf (.or a b)
    let k ← Γ.codeAs a .bool (lower a)
    let l ← Γ.codeAs b .bool (lower b)
    .ok (k ++ [.branch [.const 1] l])
  | .cond c a b => do
    let t ← Γ.typeOf (.cond c a b)
    let k ← Γ.codeAs c .bool (lower c)
    let l ← Γ.codeAs a t.dtype (lower a)
    let m ← Γ.codeAs b t.dtype (lower b)
    .ok (k ++ [.branch l m])
  | .call name args => do
    let _ ← Γ.typeOf (.call name args)
    let f ← Γ.host name args.length
    let g ← linked name args.length f
    let k ← lowerAll args
    .ok (k ++ [.call g])

/-- Code that pushes the values of several expressions as doubles. -/
def lowerAll : List Expr → Except Error Code
  | [] => .ok []
  | e :: es => do
    let k ← Γ.codeAs e .float64 (lower e)
    let l ← lowerAll es
    .ok (k ++ l)

end

def lowerAs (e : Expr) (t : DType) : Except Error Code := Γ.codeAs e t (Γ.lower e)

end Scope

end Pointwise

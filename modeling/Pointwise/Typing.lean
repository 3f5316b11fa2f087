import Pointwise.Definition
import Pointwise.Host

/-!
# Types of expressions

The element type of every part of a definition's body. Literals are weak: they take the type of what
they meet, and are 64 bits wide where they only meet each other.
-/

namespace Pointwise

/-- The type of an expression, which a literal leaves open. -/
inductive Ty where
  | concrete (t : DType)
  | weakInt
  | weakFloat
deriving DecidableEq, Repr

namespace Ty

/-- The element type of an expression that meets nothing else. -/
def dtype : Ty → DType
  | concrete t => t
  | weakInt => .int64
  | weakFloat => .float64

/-- The type in which two operands meet. -/
def combine : Ty → Ty → Ty
  | concrete s, concrete t => .concrete (s.promote t)
  | concrete t, weakInt | weakInt, concrete t => .concrete (if t.isBool then .int64 else t)
  | concrete t, weakFloat | weakFloat, concrete t => .concrete (if t.isFloat then t else .float64)
  | weakInt, weakInt => weakInt
  | _, _ => weakFloat

/-- The type of sums, differences and products: truth values are added as integers. -/
def arith (s t : Ty) : Ty :=
  match s.combine t with
  | concrete .bool => concrete .int64
  | u => u

/-- The type of quotients: integers are divided as floating-point numbers. -/
def quotient (s t : Ty) : Ty :=
  match s.combine t with
  | concrete u => .concrete (if u.isFloat then u else .float64)
  | _ => weakFloat

def result (op : ArithOp) (s t : Ty) : Ty :=
  match op with
  | .add | .sub | .mul => s.arith t
  | .div => s.quotient t
  | .max | .min => s.combine t

end Ty

/-- What the names in an expression stand for when it is compiled. -/
structure Scope where
  /-- The name of the definition, for messages. -/
  name : String
  params : List String
  /-- The element types of the parameters. -/
  args : List DType
  hosts : HostTable

namespace Scope

variable (Γ : Scope)

def index? (x : String) : Option Nat := Γ.params.findIdx? (· == x)

def paramType? (x : String) : Option DType := (Γ.index? x).bind (Γ.args[·]?)

/-- The host function of a call. Arities are counted in one byte. -/
def host (name : String) (argCount : Nat) : Except Error HostFn :=
  match Γ.hosts.get? name (UInt8.ofNat argCount) with
  | some f => .ok f
  | none => .error (.unknownFunction name (UInt8.ofNat argCount))

mutual

def infer : Expr → Except Error Ty
  | .int _ => .ok .weakInt
  | .float _ => .ok .weakFloat
  | .bool _ => .ok (.concrete .bool)
  | .var x => (Γ.paramType? x).elim (.error (.unknownIdent x)) fun t => .ok (.concrete t)
  | .neg x => do
    let t ← infer x
    if t = .concrete .bool then .error (.typing (.negatedBoolIn Γ.name)) else .ok t
  | .not x => do
    let _ ← infer x
    .ok (.concrete .bool)
  | .arith op a b => do
    let s ← infer a
    let t ← infer b
    .ok (.result op s t)
  | .compare _ a b | .and a b | .or a b => do
    let _ ← infer a
    let _ ← infer b
    .ok (.concrete .bool)
  | .cond c a b => do
    let _ ← infer c
    let s ← infer a
    let t ← infer b
    .ok (s.combine t)
  | .call name args => do
    inferAll args
    let f ← Γ.host name args.length
    .ok (.concrete f.ret)

def inferAll : List Expr → Except Error Unit
  | [] => .ok ()
  | e :: es => do
    let _ ← infer e
    inferAll es

end

/-- The type of a part of a body that has been checked. -/
def typeOf (e : Expr) : Except Error Ty :=
  match Γ.infer e with
  | .ok t => .ok t
  | .error _ => .error (.internal .untypedNode)

/-- The element type in which two parts of a checked body are compared. -/
def commonType (a b : Expr) : Except Error DType := do
  let s ← Γ.typeOf a
  let t ← Γ.typeOf b
  .ok (s.combine t).dtype

def callsBoxed : Expr → Bool
  | .call name args =>
    match Γ.hosts.get? name (UInt8.ofNat args.length) with
    | some (.boxed ..) => true
    | _ => false
  | _ => false

def usesBoxed (e : Expr) : Bool := e.nodes.any Γ.callsBoxed

end Scope

def Definition.scope (d : Definition) (hosts : HostTable) (args : List DType) : Scope :=
  ⟨d.name, d.params, args, hosts⟩

/-- The body of a definition with its type for given argument types. -/
def Definition.check (d : Definition) (hosts : HostTable) (args : List DType) :
    Except Error (Expr × Ty) := do
  if args.length ≠ d.nin then
    throw (.argCount d.name (.exactly d.nin) args.length)
  let body ← d.body
  let t ← (d.scope hosts args).infer body
  return (body, t)

end Pointwise

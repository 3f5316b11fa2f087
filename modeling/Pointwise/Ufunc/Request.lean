import Pointwise.Ufunc.Call

/-!
# Requests

All that can be asked of a function, and the answers to a sequence of requests.
-/

namespace Pointwise

inductive Request where
  | add (text : String)
  | addSignature (s : Signature)
  | compileFor (args : List DType) (ret : Option DType)
  | compileForOperands (args : List Operand) (keywords : List (String × Operand))
  | find (args : List DType)
  | freeze
  | typeCall (types : List OperandType)
  | call (args : List Operand) (keywords : List (String × Operand))
  | reduce (a : NDArray) (options : ReduceOptions)
  /-- Runs the loop that is found for the argument types. -/
  | invoke (args : List DType) (values : List Scalar)
  | snapshot

/-- What a request is answered with if it does not fail. -/
inductive Response where
  | done
  | noLoop
  | loop (l : Loop)
  | signature (s : CallSignature)
  | operand (op : Operand)
  | reduced (r : Reduced)
  | scalar (s : Scalar)
  | snapshot (s : Ufunc.Snapshot)

namespace Request

/-- The signature for which a request registers a loop. -/
def signature? : Request → Option Signature
  | add text => (Signature.read text).toOption
  | addSignature s => some s
  | compileFor args ret => some ⟨args, ret⟩
  | _ => none

/-- The return type that a request names. -/
def ret? (r : Request) : Option DType := r.signature?.bind Signature.ret

/-- Whether a request only wants a loop, and no element is computed. -/
def wantsLoop : Request → Bool
  | add _ | addSignature _ | compileFor .. | compileForOperands .. | find _ | typeCall _ => true
  | _ => false

/-- Whether a request only looks at the function. -/
def looks : Request → Bool
  | find _ | invoke .. | snapshot => true
  | _ => false

end Request

namespace Ufunc

def perform : Request → Action Response
  | .add text => .loop <$> add text
  | .addSignature s => .loop <$> addSignature s
  | .compileFor args ret => .loop <$> compileFor args ret
  | .compileForOperands args keywords => .loop <$> compileForOperands args keywords
  | .find args => do return ((← get).find? args).elim .noLoop .loop
  | .freeze => do
    freeze
    return .done
  | .typeCall types => .signature <$> typeCall types
  | .call args keywords => .operand <$> call args keywords
  | .reduce a options => .reduced <$> reduce a options
  | .invoke args values => do
    match (← get).find? args with
    | some l => return .scalar (← liftM (l.invoke values))
    | none => return .noLoop
  | .snapshot => do return .snapshot (← get).snapshot

/-- The answers to requests that are made one after the other, and the function after them. -/
def performAll (u : Ufunc) : List Request → List (Except Error Response) × Ufunc
  | [] => ([], u)
  | r :: rs =>
    let (answer, u) := (perform r).run.run u
    let (answers, u) := performAll u rs
    (answer :: answers, u)

def answers (u : Ufunc) (requests : List Request) : List (Except Error Response) :=
  (u.performAll requests).1

/-- The function after requests, also if some of them have failed. -/
def afterAll (u : Ufunc) (requests : List Request) : Ufunc := (u.performAll requests).2

end Ufunc

end Pointwise

import Pointwise.Loop.Adapter
import Pointwise.Loop.Matching
import Pointwise.Loop.Table
import Pointwise.Operand
import Pointwise.Operand.Typing
import Pointwise.Reduction
import Pointwise.Signature.Reader

/-!
# Functions of arrays

A function is a definition with the loops compiled for it so far. A loop is compiled when it is
first asked for, until the function is frozen; from then on calls are served by the loops that are
there. Operations return their answer or an error, together with the function as it is afterwards.
-/

namespace Pointwise

/-- The outer argument types, the outer return type and the inner argument types of an adapter. -/
abbrev AdapterKey := List DType × DType × List DType

/-- A definition with its compiled loops. -/
structure Ufunc where
  definition : Definition
  hosts : HostTable
  /-- Where reductions start that are given no other start. -/
  identity : Option Scalar
  options : Options
  table : LoopTable
  frozen : Bool
  adapters : List (AdapterKey × Adapter)

namespace Ufunc

abbrev Action := Stateful Ufunc

def new (d : Definition) (hosts : HostTable) (identity : Option Scalar) (options : Options) :
    Ufunc :=
  ⟨d, hosts, identity, options, .empty, false, []⟩

variable (u : Ufunc)

def name : String := u.definition.name
def nin : Nat := u.definition.nin
def nout : Nat := u.definition.nout

/-- Number of operands, outputs included. -/
def nargs : Nat := u.nin + u.nout

/-- The loops as loop strings, in the order of registration. -/
def types : List String := u.table.toList.map (·.signature.loopString)

def arityError (given : Nat) : Error := .argCount u.name (.either u.nin u.nargs) given

/-! ## Loops -/

/-- The loop for exactly these argument types, unless it has another than the wanted return type. -/
def lookupExact (args : List DType) (ret : Option DType) : Except Error (Option Loop) :=
  match u.table.get? args with
  | none => .ok none
  | some l =>
    match ret with
    | some t =>
      if t = l.ret then .ok (some l)
      else .error (.conflictingSignature u.name l.signature ⟨args, some t⟩)
    | none => .ok (some l)

/-- The loop that serves these argument types: their own, or the best one of a frozen function. -/
def find? (args : List DType) : Option Loop :=
  match u.table.get? args with
  | some l => some l
  | none => if u.frozen then Loop.findMatching? args u.table.toList else none

/-- Fixes the loops, of which there must be one. -/
def freeze : Action Unit := do
  let u ← get
  if u.table.isEmpty then throw (.nothingToFreeze u.name)
  set { u with frozen := true }

/-- The loop for these argument types, compiled now if it is not there. -/
def compileFor (args : List DType) (ret : Option DType) : Action Loop := do
  let u ← get
  if u.frozen then throw (.compilationDisabled u.name)
  if args.length ≠ u.nin then throw (u.arityError args.length)
  match ← liftM (u.lookupExact args ret) with
  | some l => return l
  | none =>
    let l ← liftM (Loop.compile u.definition u.hosts u.options args ret)
    let (l, table) := u.table.insert l
    set { u with table }
    return l

def addSignature (s : Signature) : Action Loop := compileFor s.args s.ret

def add (text : String) : Action Loop := do addSignature (← liftM (Signature.read text))

/-- The operands of a call with the outputs that are passed by the keyword `out`. -/
def mergeKeywords (args : List Operand) (keywords : List (String × Operand)) :
    Except Error (List Operand) :=
  let unexpected := (keywords.map (·.1)).filter (· != "out")
  if unexpected.isEmpty then .ok (args ++ keywords.map (·.2))
  else .error (.unexpectedKeywords (unexpected.mergeSort fun s t => s ≤ t))

/-- Compiles for the element types of a call's operands. -/
def compileForOperands (args : List Operand) (keywords : List (String × Operand)) :
    Action Loop := do
  let u ← get
  let args ← liftM (mergeKeywords args keywords)
  if args.length ≠ u.nin ∧ args.length ≠ u.nargs then throw (u.arityError args.length)
  compileFor ((args.take u.nin).map Operand.dtype) none

/-! ## Snapshots -/

/-- All that it takes to make a function again. -/
structure Snapshot where
  definition : String
  identity : Option Scalar
  frozen : Bool
  signatures : List Signature
  options : Options
deriving DecidableEq, Repr

def snapshot : Snapshot :=
  ⟨u.definition.source, u.identity, u.frozen, u.table.toList.map Loop.signature, u.options⟩

def addAll (signatures : List Signature) : Action Unit :=
  signatures.forM fun s => discard (addSignature s)

/-- The function of a snapshot, with its loops compiled again. -/
def rebuild (s : Snapshot) (hosts : HostTable) : Except Error Ufunc := do
  let d ← Definition.parse s.definition
  let restore : Action Unit := do
    addAll s.signatures
    if s.frozen then freeze
  let (result, u) := restore.run.run (new d hosts s.identity s.options)
  let _ ← result
  return u

/-- Whether two snapshots hold the same, where an identity that is no number equals no other. -/
def Snapshot.agrees (s t : Snapshot) : Bool :=
  s.definition == t.definition && s.frozen == t.frozen && s.signatures == t.signatures &&
    s.options == t.options &&
    match s.identity, t.identity with
    | none, none => true
    | some a, some b => a.sameNumber b
    | _, _ => false

/-! ## Text -/

def display : String := "<dufunc '" ++ u.name ++ "'>"

def describe : String :=
  "DUFunc \x7b name: " ++ Text.quoted u.name ++ ", nin: " ++ toString u.nin ++ ", nout: " ++
    toString u.nout ++ ", identity: " ++
    (match u.identity with
      | none => "None"
      | some s => "Some(" ++ s.describe ++ ")") ++
    ", frozen: " ++ toString u.frozen ++ " \x7d"

end Ufunc

end Pointwise

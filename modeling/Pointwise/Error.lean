import Pointwise.Definition.Token
import Pointwise.Operand.Type
import Pointwise.Signature

/-!
# Errors

Every way in which an operation can fail, with what the message says about it. The wording is in
`message` alone.
-/

namespace Pointwise

inductive Expectation where
  | identifier | openParen | commaOrClose | assign | closeParen | endOfDefinition | operand
deriving DecidableEq, Repr

inductive ParseError where
  | unexpectedChar (c : Char) (offset : Nat)
  | invalidFloat (text : String) (offset : Nat)
  | integerTooLarge (text : String) (offset : Nat)
  | expected (what : Expectation) (found : Token) (offset : Nat)
  | conditionalArity
  | noParameters (name : String)
  | tooManyParameters (name : String) (count limit : Nat)
  | duplicateParameter (parameter : String)
deriving DecidableEq, Repr

inductive SignatureError where
  | malformed (text : String)
  | severalOutputs (text : String)
  | unknownType (text : String)
deriving DecidableEq, Repr

/-- Why the axes of a reduction are refused. -/
inductive AxisError where
  | rankZero (name : String)
  | notReorderable (name : String)
  | unspecified
  | outOfRange (axis : Int) (rank : Nat)
  | noAxes
  | repeated (axes : List Int)
deriving DecidableEq, Repr

inductive BroadcastError where
  | shapes (shapes : List (List Nat))
  /-- The inputs have a shape that the given output cannot take. -/
  | output (output inputs : List Nat)
deriving DecidableEq, Repr

inductive OperandError where
  | elementCount (shape : List Nat) (count : Nat)
  | outOfBounds (index shape : List Nat)
  | notAPermutation (axes : List Nat)
  | outputType (name : String) (given : OperandType)
  | outputNotArray (name : String)
deriving DecidableEq, Repr

/-- Why an operation has no meaning for the types of its operands. -/
inductive TypingError where
  | integerDivision
  | boolArithmetic
  | mismatch (a b : DType)
  | incomparable (a b : DType)
  | negatedBool
  | negatedBoolIn (name : String)
  /-- Refused by a host function, in its own words. -/
  | refused (reason : String)
deriving DecidableEq, Repr

/-- Why a definition cannot be compiled to machine code. -/
inductive LoweringError where
  | conflictingModes
  | needsBoxed (name : String)
  | integerDivision (name : String)
  | boxedHost (name : String) (arity : UInt8)
  /-- A call whose arguments do not fit the function that it reaches. -/
  | invalidCode
deriving DecidableEq, Repr

inductive InternalError where
  | untypedNode
  | hostArity (arity : UInt8) (given : Nat)
  | argumentType (given expected : DType)
  | noOutput (name : String)
deriving DecidableEq, Repr

inductive ArgCount where
  | exactly (n : Nat)
  | either (n m : Nat)
  | binaryFunction
deriving DecidableEq, Repr

inductive Error where
  | parse (cause : ParseError)
  | unknownIdent (name : String)
  | unknownFunction (name : String) (arity : UInt8)
  | functionExists (name : String) (arity : UInt8)
  | invalidSignature (cause : SignatureError)
  | compilationDisabled (name : String)
  | noMatchingLoop (name : String) (types : List OperandType)
  | severalOutputs (name : String) (count : Nat)
  | invalidAxis (cause : AxisError)
  | unexpectedKeywords (keywords : List String)
  | conflictingSignature (name : String) (existing requested : Signature)
  | argCount (name : String) (expected : ArgCount) (given : Nat)
  | broadcast (cause : BroadcastError)
  | invalidOperand (cause : OperandError)
  | emptyReduction (name : String)
  | nothingToFreeze (name : String)
  | typing (cause : TypingError)
  | lowering (cause : LoweringError)
  | internal (cause : InternalError)
deriving DecidableEq, Repr

/-! ## Wording -/

def bracketed {α : Type} [ToString α] (items : List α) : String :=
  "[" ++ ", ".intercalate (items.map toString) ++ "]"

def Expectation.message : Expectation → String
  | identifier => "identifier"
  | openParen => "'('"
  | commaOrClose => "',' or ')'"
  | assign => "'='"
  | closeParen => "')'"
  | endOfDefinition => "end of definition"
  | operand => "number, identifier or '('"

def ParseError.message : ParseError → String
  | unexpectedChar c offset =>
    "unexpected character '" ++ c.toString ++ "' at offset " ++ toString offset
  | invalidFloat text offset =>
    "invalid number '" ++ text ++ "' at offset " ++ toString offset ++ ": invalid float literal"
  | integerTooLarge text offset =>
    "invalid integer '" ++ text ++ "' at offset " ++ toString offset ++
      ": number too large to fit in target type"
  | expected what found offset =>
    "expected " ++ what.message ++ ", found " ++ found.describe ++ " at offset " ++ toString offset
  | conditionalArity => "if() requires 3 arguments"
  | noParameters name => name ++ " takes no parameters"
  | tooManyParameters name count limit =>
    name ++ " has " ++ toString count ++ " parameters; at most " ++ toString limit ++
      " are supported"
  | duplicateParameter parameter => "duplicate parameter '" ++ parameter ++ "'"

def SignatureError.message : SignatureError → String
  | malformed text => text
  | severalOutputs text => text ++ ": exactly one output type is supported"
  | unknownType text => "unknown type '" ++ text ++ "'"

def AxisError.message : AxisError → String
  | rankZero name => "cannot reduce a 0-d array with " ++ name
  | notReorderable name =>
    "reduction operation '" ++ name ++
      "' is not reorderable, so at most one axis may be specified"
  | unspecified => "'axis' must be specified"
  | outOfRange axis rank =>
    "Invalid axis " ++ toString axis ++ " for array of dimension " ++ toString rank
  | noAxes => "empty axis tuple"
  | repeated axes => "duplicate value in 'axis': " ++ bracketed axes

def BroadcastError.message : BroadcastError → String
  | shapes ss => " ".intercalate (ss.map bracketed)
  | output o i => bracketed o ++ " (output) " ++ bracketed i ++ " (inputs)"

def OperandError.message : OperandError → String
  | elementCount shape count =>
    "cannot build array of shape " ++ bracketed shape ++ " from " ++ toString count ++ " values"
  | outOfBounds index shape =>
    "index " ++ bracketed index ++ " out of bounds for shape " ++ bracketed shape
  | notAPermutation axes => "axes " ++ bracketed axes ++ " don't match array"
  | outputType name given =>
    "output operand of " ++ name ++ " must be an array, got " ++ given.text
  | outputNotArray name => "output of " ++ name ++ " must be an array"

def TypingError.message : TypingError → String
  | integerDivision => "integer operands for true division must be promoted (binary)"
  | boolArithmetic => "arithmetic on bool operands (binary)"
  | mismatch a b => "mismatched operand types " ++ a.name ++ " and " ++ b.name ++ " (binary)"
  | incomparable a b => "cannot compare " ++ a.name ++ " with " ++ b.name
  | negatedBool => "negation of a bool operand"
  | negatedBoolIn name => "negation of a bool operand in " ++ name
  | refused reason => reason

def LoweringError.message : LoweringError → String
  | conflictingModes => "nopython and forceobj cannot both be set"
  | needsBoxed name =>
    name ++ " calls a dynamic host function and cannot be compiled in nopython mode"
  | integerDivision name => "integer true division in " ++ name
  | boxedHost name arity =>
    name ++ "/" ++ toString arity ++ " is a dynamic host function and needs object mode"
  | invalidCode => "Compilation error: Verifier errors"

def InternalError.message : InternalError → String
  | untypedNode => "untyped expression node"
  | hostArity arity given =>
    "host function of arity " ++ toString arity ++ " called with " ++ toString given ++ " arguments"
  | argumentType given expected =>
    "kernel argument of type " ++ given.name ++ " where " ++ expected.name ++ " was expected"
  | noOutput name => name ++ " resolved without an output"

def ArgCount.message : ArgCount → String
  | exactly n => toString n
  | either n m => toString n ++ " or " ++ toString m
  | binaryFunction => "a binary function"

def Error.message : Error → String
  | parse cause => "parse error: " ++ cause.message
  | unknownIdent name => "unknown identifier: " ++ name
  | unknownFunction name arity => "unknown function: " ++ name ++ "/" ++ toString arity
  | functionExists name arity => "function already exists: " ++ name ++ "/" ++ toString arity
  | invalidSignature cause => "invalid signature: " ++ cause.message
  | compilationDisabled name => "compilation disabled for " ++ name
  | noMatchingLoop name types =>
    "cannot call " ++ name ++ " with types (" ++ ", ".intercalate (types.map OperandType.text) ++
      ")"
  | severalOutputs name count =>
    "typing gufuncs (nout > 1) is not implemented: " ++ name ++ " has " ++ toString count ++
      " outputs"
  | invalidAxis cause => cause.message
  | unexpectedKeywords keywords =>
    "unexpected keyword arguments to ufunc: " ++
      ", ".intercalate (keywords.map fun k => "'" ++ k ++ "'")
  | conflictingSignature name existing requested =>
    "signature " ++ requested.text ++ " conflicts with registered " ++ existing.text ++ " for " ++
      name
  | argCount name expected given =>
    name ++ " takes " ++ expected.message ++ " arguments, got " ++ toString given
  | broadcast cause => "operands could not be broadcast together with shapes " ++ cause.message
  | invalidOperand cause => "invalid operand: " ++ cause.message
  | emptyReduction name =>
    "zero-size array to reduction operation " ++ name ++ " which has no identity"
  | nothingToFreeze name =>
    "cannot disable compilation of " ++ name ++ ": no signatures have been compiled"
  | typing cause => "typing error: " ++ cause.message
  | lowering cause => "nopython lowering failed: " ++ cause.message
  | internal cause => "jit internal error: " ++ cause.message

end Pointwise

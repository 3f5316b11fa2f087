import Pointwise.Definition.Lexer
import Pointwise.Definition.Parser

/-!
# Definitions

A function of named parameters, given by one expression for each of its outputs. Only definitions
with one output can be compiled.
-/

namespace Pointwise

/-- A definition whose expressions mention no other names than its parameters. -/
structure Definition where
  name : String
  params : List String
  outputs : List Expr
  /-- The text it was read from, without the blanks around it. -/
  source : String

namespace Definition

def maxParams : Nat := 16

/-- The first element that also occurs before itself. -/
def firstRepeat? (seen : List String) : List String → Option String
  | [] => none
  | x :: xs => if x ∈ seen then some x else firstRepeat? (x :: seen) xs

def parse (text : String) : Except Error Definition := do
  let p ← Parser.definition (← Token.scanAll text)
  if p.params.isEmpty then
    throw (.parse (.noParameters p.name))
  if maxParams < p.params.length then
    throw (.parse (.tooManyParameters p.name p.params.length maxParams))
  if let some x := firstRepeat? [] p.params then
    throw (.parse (.duplicateParameter x))
  if let some x := (p.outputs.flatMap Expr.vars).find? (· ∉ p.params) then
    throw (.unknownIdent x)
  return ⟨p.name, p.params, p.outputs, String.ofList (Text.trim text.toList)⟩

variable (d : Definition)

def nin : Nat := d.params.length

def nout : Nat := d.outputs.length

/-- The host functions that it calls, in order of first appearance. -/
def hostCalls : List (String × UInt8) := Expr.firsts (d.outputs.flatMap Expr.calls)

def body : Except Error Expr :=
  match d.outputs with
  | [e] => .ok e
  | _ => .error (.severalOutputs d.name d.nout)

def paramIndex? (name : String) : Option Nat := d.params.findIdx? (· == name)

end Definition

end Pointwise

import Pointwise.Scalar.Arith

/-!
# Expressions

The bodies of definitions.
-/

namespace Pointwise

open Binary (Comparison)

inductive Expr where
  /-- An integer, which takes the type of what it meets. -/
  | int (n : Int)
  /-- A double pattern, which takes the type of the floating-point number it meets. -/
  | float (pattern : BitVec 64)
  | bool (b : Bool)
  | var (name : String)
  | neg (x : Expr)
  | not (x : Expr)
  | arith (op : ArithOp) (a b : Expr)
  | compare (c : Comparison) (a b : Expr)
  /-- True if both operands are; the second is left alone if the first is not. -/
  | and (a b : Expr)
  /-- True if one operand is; the second is left alone if the first is. -/
  | or (a b : Expr)
  /-- The second operand if the first is true, else the third. -/
  | cond (c t e : Expr)
  | call (name : String) (args : List Expr)
deriving Repr

namespace Expr

mutual

/-- An expression and all that it contains, each before its parts. -/
def nodes : Expr → List Expr
  | int n => [int n]
  | float p => [float p]
  | bool b => [bool b]
  | var name => [var name]
  | neg x => neg x :: nodes x
  | not x => not x :: nodes x
  | arith op a b => arith op a b :: (nodes a ++ nodes b)
  | compare c a b => compare c a b :: (nodes a ++ nodes b)
  | and a b => and a b :: (nodes a ++ nodes b)
  | or a b => or a b :: (nodes a ++ nodes b)
  | cond c t e => cond c t e :: (nodes c ++ nodes t ++ nodes e)
  | call name args => call name args :: nodesOfAll args

def nodesOfAll : List Expr → List Expr
  | [] => []
  | e :: es => nodes e ++ nodesOfAll es

end

/-- The elements of a list without repetitions, in the order of their first appearance. -/
def firsts {α : Type} [DecidableEq α] (l : List α) : List α :=
  l.foldl (fun seen x => if x ∈ seen then seen else seen ++ [x]) []

def varName? : Expr → Option String
  | var name => some name
  | _ => none

/-- The host function that a node calls. An arity above 255 is recorded as 255. -/
def callKey? : Expr → Option (String × UInt8)
  | call name args => some (name, UInt8.ofNat (min args.length 255))
  | _ => none

/-- The names of the parameters in an expression, in order of first appearance. -/
def vars (e : Expr) : List String := firsts (e.nodes.filterMap varName?)

/-- The host functions called in an expression, in order of first appearance. -/
def calls (e : Expr) : List (String × UInt8) := firsts (e.nodes.filterMap callKey?)

end Expr

end Pointwise

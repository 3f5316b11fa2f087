import Pointwise.Definition.Expr

/-!
# Expressions as text

The tree of an expression, written with the names of its nodes.
-/

namespace Pointwise

def ArithOp.name : ArithOp → String
  | add => "Add"
  | sub => "Sub"
  | mul => "Mul"
  | div => "Div"
  | max => "Max"
  | min => "Min"

def Binary.Comparison.name : Binary.Comparison → String
  | eq => "Eq"
  | ne => "Ne"
  | lt => "Lt"
  | le => "Le"
  | gt => "Gt"
  | ge => "Ge"

/-- The last `width` hexadecimal digits of a number, with zeros in front. -/
def hexDigits (width n : Nat) : String :=
  let digits := Nat.toDigits 16 n
  String.ofList (List.replicate (width - digits.length) '0' ++ digits)

namespace Expr

/-- A node with its parts in parentheses. -/
def node (name : String) (parts : List String) : String :=
  name ++ "(" ++ ", ".intercalate parts ++ ")"

mutual

/-- The tree of an expression. A floating-point number is shown as its bits. -/
def tree : Expr → String
  | int n => node "Int" [toString n]
  | float p => node "Float" [hexDigits 16 p.toNat]
  | bool b => node "Bool" [toString b]
  | var name => node "Var" [Text.quoted name]
  | neg x => node "Neg" [tree x]
  | not x => node "Not" [tree x]
  | arith op a b => node op.name [tree a, tree b]
  | compare c a b => node c.name [tree a, tree b]
  | and a b => node "And" [tree a, tree b]
  | or a b => node "Or" [tree a, tree b]
  | cond c t e => node "If" [tree c, tree t, tree e]
  | call name args =>
    "Call \x7b name: " ++ Text.quoted name ++ ", args: " ++ bracketed (trees args) ++ " \x7d"

def trees : List Expr → List String
  | [] => []
  | e :: es => tree e :: trees es

end

end Expr

end Pointwise

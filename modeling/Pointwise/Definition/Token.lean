import Pointwise.Decimal.Layout
import Pointwise.Text.Quoted

/-!
# Tokens

The words of a definition such as `f(x, y) = x + 2 * y`.
-/

namespace Pointwise

/-- A token. Numbers come with their value, a floating-point one as its double pattern. -/
inductive Token where
  | ident (name : String)
  | int (value : Nat)
  | float (pattern : BitVec 64)
  | plus | minus | star | slash
  | assign | eq | ne | not | lt | le | gt | ge
  | and | or
  | leftParen | rightParen | comma
  | eof
deriving DecidableEq, Repr

/-- A token and the byte offset of its first character. -/
abbrev PlacedToken := Token × Nat

namespace Token

def describe : Token → String
  | ident name => "Ident(" ++ Text.quoted name ++ ")"
  | int value => "Int(" ++ toString value ++ ")"
  | float pattern => "Float(" ++ Binary.double.render .marked pattern.toNat ++ ")"
  | plus => "Plus"
  | minus => "Minus"
  | star => "Star"
  | slash => "Slash"
  | assign => "Assign"
  | eq => "EqEq"
  | ne => "NotEq"
  | not => "Not"
  | lt => "Lt"
  | le => "Le"
  | gt => "Gt"
  | ge => "Ge"
  | and => "AndAnd"
  | or => "OrOr"
  | leftParen => "LParen"
  | rightParen => "RParen"
  | comma => "Comma"
  | eof => "Eof"

end Token

end Pointwise

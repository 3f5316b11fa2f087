import Pointwise.Definition.Parser

/-!
# The grammar of definitions

    def     ::= Ident '(' [Ident {',' Ident}] ')' '=' or {',' or} Eof
    or      ::= and {'||' and}
    and     ::= eq {'&&' eq}
    eq      ::= cmp {('==' | '!=') cmp}
    cmp     ::= add {('<' | '<=' | '>' | '>=') add}
    add     ::= mul {('+' | '-') mul}
    mul     ::= unary {('*' | '/') unary}
    unary   ::= ('-' | '!') unary | primary
    primary ::= Int | Float | '(' or ')' | true | false | Ident | Ident '(' [or {',' or}] ')'

Each rule also says which tree it makes. Operators of one level are associated to the left.
-/

namespace Pointwise.Grammar

/-- The binary operators by how tightly they bind, the loosest first. -/
inductive Level where
  | or | and | eq | cmp | add | mul

/-- What an expression is derived from. -/
inductive Symbol where
  | chain (l : Level)
  | unary
  | primary

namespace Level

/-- What the operators of a level stand between. -/
def operand : Level → Symbol
  | or => .chain and
  | and => .chain eq
  | eq => .chain cmp
  | cmp => .chain add
  | add => .chain mul
  | mul => .unary

/-- The operators of a level and what they make of their operands. -/
def operator? : Level → Token → Option (Expr → Expr → Expr)
  | or, .or => some .or
  | and, .and => some .and
  | eq, .eq => some (.compare .eq)
  | eq, .ne => some (.compare .ne)
  | cmp, .lt => some (.compare .lt)
  | cmp, .le => some (.compare .le)
  | cmp, .gt => some (.compare .gt)
  | cmp, .ge => some (.compare .ge)
  | add, .plus => some (.arith .add)
  | add, .minus => some (.arith .sub)
  | mul, .star => some (.arith .mul)
  | mul, .slash => some (.arith .div)
  | _, _ => none

end Level

section

variable {α : Type} (item : List Token → α → Prop)

/-- One or more items with commas between. -/
inductive Commas : List Token → List α → Prop where
  | one {w : List Token} {x : α} : item w x → Commas w [x]
  | more {w w' : List Token} {x : α} {xs : List α} :
      item w x → Commas w' xs → Commas (w ++ .comma :: w') (x :: xs)

/-- Items with commas between, or nothing. -/
inductive Listed : List Token → List α → Prop where
  | none : Listed [] []
  | some {w : List Token} {xs : List α} : Commas item w xs → Listed w xs

end

/-- What a call makes. There is none of `if` with other than three arguments. -/
inductive Makes : String → List Expr → Expr → Prop where
  | cond (c t e : Expr) : Makes "if" [c, t, e] (.cond c t e)
  | max (a b : Expr) : Makes "max" [a, b] (.arith .max a b)
  | min (a b : Expr) : Makes "min" [a, b] (.arith .min a b)
  | call {name : String} {args : List Expr} :
      name ≠ "if" → ¬(name ∈ ["max", "min"] ∧ args.length = 2) → Makes name args (.call name args)

/-- Which tokens are derived from a symbol, and the tree they make. -/
inductive Derives : Symbol → List Token → Expr → Prop where
  | operand {l : Level} {w : List Token} {e : Expr} :
      Derives l.operand w e → Derives (.chain l) w e
  | operator {l : Level} {w w' : List Token} {a b : Expr} {t : Token}
      {build : Expr → Expr → Expr} :
      Derives (.chain l) w a → l.operator? t = some build → Derives l.operand w' b →
      Derives (.chain l) (w ++ t :: w') (build a b)
  | neg {w : List Token} {e : Expr} : Derives .unary w e → Derives .unary (.minus :: w) (.neg e)
  | not {w : List Token} {e : Expr} : Derives .unary w e → Derives .unary (.not :: w) (.not e)
  | primary {w : List Token} {e : Expr} : Derives .primary w e → Derives .unary w e
  | int (n : Nat) : Derives .primary [.int n] (.int n)
  | float (pattern : BitVec 64) : Derives .primary [.float pattern] (.float pattern)
  | parens {w : List Token} {e : Expr} :
      Derives (.chain .or) w e → Derives .primary (.leftParen :: w ++ [.rightParen]) e
  | true : Derives .primary [.ident "true"] (.bool true)
  | false : Derives .primary [.ident "false"] (.bool false)
  | var {name : String} :
      name ≠ "true" → name ≠ "false" → Derives .primary [.ident name] (.var name)
  | call {name : String} {w : List Token} {args : List Expr} {e : Expr} :
      name ≠ "true" → name ≠ "false" → Listed (Derives (.chain .or)) w args → Makes name args e →
      Derives .primary (.ident name :: .leftParen :: w ++ [.rightParen]) e

/-- Which tokens are a definition, and what is read of them. -/
inductive IsDefinition : List Token → Parser.Parsed → Prop where
  | intro {name : String} {w w' : List Token} {params : List String} {outputs : List Expr} :
      Listed (fun v param => v = [.ident param]) w params →
      Commas (Derives (.chain .or)) w' outputs →
      IsDefinition (.ident name :: .leftParen :: w ++ .rightParen :: .assign :: w' ++ [.eof])
        ⟨name, params, outputs⟩

end Pointwise.Grammar

import Pointwise.Definition.Expr
import Pointwise.Error

/-!
# Parsing definitions

A definition is `name(parameters) = expression, …, expression`. Operators are left-associative and
are parsed by their binding power: an expression takes the operators that bind tighter than the
power it is called with. Every function returns the tokens that it left, and they are fewer than it
was given.
-/

namespace Pointwise

/-- The binding power of an operator and the expression it makes. -/
def Token.operator? : Token → Option (Nat × (Expr → Expr → Expr))
  | .or => some (1, .or)
  | .and => some (2, .and)
  | .eq => some (3, .compare .eq)
  | .ne => some (3, .compare .ne)
  | .lt => some (4, .compare .lt)
  | .le => some (4, .compare .le)
  | .gt => some (4, .compare .gt)
  | .ge => some (4, .compare .ge)
  | .plus => some (5, .arith .add)
  | .minus => some (5, .arith .sub)
  | .star => some (6, .arith .mul)
  | .slash => some (6, .arith .div)
  | _ => none

namespace Parser

/-- The tokens that are left, fewer than there were. -/
abbrev Fewer (ts : List PlacedToken) := { rest : List PlacedToken // rest.length < ts.length }

/-- The tokens that are left, no more than there were. -/
abbrev NoMore (ts : List PlacedToken) := { rest : List PlacedToken // rest.length ≤ ts.length }

/-- Points at the next token, or at the end if there is none. -/
def unexpected (what : Expectation) (ts : List PlacedToken) : Error :=
  let (found, offset) := ts.headD (.eof, 0)
  .parse (.expected what found offset)

/-- Some names have a meaning of their own when called; every other call is of a host function. -/
def makeCall (name : String) (args : List Expr) : Except Error Expr :=
  match name, args with
  | "if", [c, t, e] => .ok (.cond c t e)
  | "if", _ => .error (.parse .conditionalArity)
  | "max", [a, b] => .ok (.arith .max a b)
  | "min", [a, b] => .ok (.arith .min a b)
  | name, args => .ok (.call name args)

mutual

/-- An expression, up to the first operator that binds no tighter than `power`. -/
def expr (power : Nat) (ts : List PlacedToken) : Except Error (Expr × Fewer ts) :=
  match unary ts with
  | .error e => .error e
  | .ok (lhs, ⟨r, hr⟩) =>
    match climb power lhs r with
    | .error e => .error e
    | .ok (x, ⟨r', hr'⟩) => .ok (x, ⟨r', by omega⟩)
termination_by 6 * ts.length + 3

/-- The operators that follow an operand, as long as they bind tighter than `power`. -/
def climb (power : Nat) (lhs : Expr) (ts : List PlacedToken) : Except Error (Expr × NoMore ts) :=
  match ts with
  | [] => .ok (lhs, ⟨[], Nat.le_refl _⟩)
  | (t, offset) :: r =>
    match t.operator? with
    | none => .ok (lhs, ⟨(t, offset) :: r, Nat.le_refl _⟩)
    | some (p, build) =>
      if p ≤ power then .ok (lhs, ⟨(t, offset) :: r, Nat.le_refl _⟩)
      else
        match expr p r with
        | .error e => .error e
        | .ok (rhs, ⟨r', hr'⟩) =>
          match climb power (build lhs rhs) r' with
          | .error e => .error e
          | .ok (x, ⟨r'', hr''⟩) => .ok (x, ⟨r'', by simp only [List.length_cons]; omega⟩)
termination_by 6 * ts.length + 0

/-- An operand with the signs before it. -/
def unary (ts : List PlacedToken) : Except Error (Expr × Fewer ts) :=
  match ts with
  | (.minus, _) :: r =>
    match unary r with
    | .error e => .error e
    | .ok (x, ⟨r', hr'⟩) => .ok (.neg x, ⟨r', by simp only [List.length_cons]; omega⟩)
  | (.not, _) :: r =>
    match unary r with
    | .error e => .error e
    | .ok (x, ⟨r', hr'⟩) => .ok (.not x, ⟨r', by simp only [List.length_cons]; omega⟩)
  | ts => primary ts
termination_by 6 * ts.length + 2

/-- A number, a truth value, a parameter, a call, or an expression in parentheses. -/
def primary (ts : List PlacedToken) : Except Error (Expr × Fewer ts) :=
  match ts with
  | (.int n, _) :: r => .ok (.int n, ⟨r, by simp⟩)
  | (.float p, _) :: r => .ok (.float p, ⟨r, by simp⟩)
  | (.leftParen, _) :: r =>
    match expr 0 r with
    | .error e => .error e
    | .ok (x, ⟨r', hr'⟩) =>
      match r', hr' with
      | (.rightParen, _) :: r'', h => .ok (x, ⟨r'', by simp only [List.length_cons] at h ⊢; omega⟩)
      | r', _ => .error (unexpected .closeParen r')
  | (.ident name, _) :: r =>
    if name = "true" then .ok (.bool true, ⟨r, by simp⟩)
    else if name = "false" then .ok (.bool false, ⟨r, by simp⟩)
    else
      match r with
      | (.leftParen, _) :: r =>
        match arguments r with
        | .error e => .error e
        | .ok (args, ⟨r', hr'⟩) =>
          match makeCall name args with
          | .error e => .error e
          | .ok x => .ok (x, ⟨r', by simp only [List.length_cons]; omega⟩)
      | r => .ok (.var name, ⟨r, by simp⟩)
  | ts => .error (unexpected .operand ts)
termination_by 6 * ts.length + 1

/-- The arguments of a call, whose opening parenthesis is taken. -/
def arguments (ts : List PlacedToken) : Except Error (List Expr × Fewer ts) :=
  match ts with
  | (.rightParen, _) :: r => .ok ([], ⟨r, by simp⟩)
  | ts => someArguments ts
termination_by 6 * ts.length + 5

/-- At least one argument, and the closing parenthesis. -/
def someArguments (ts : List PlacedToken) : Except Error (List Expr × Fewer ts) :=
  match expr 0 ts with
  | .error e => .error e
  | .ok (x, ⟨r, hr⟩) =>
    match r, hr with
    | (.rightParen, _) :: r', h => .ok ([x], ⟨r', by simp only [List.length_cons] at h; omega⟩)
    | (.comma, _) :: r', h =>
      have : r'.length < ts.length := by simp only [List.length_cons] at h; omega
      match someArguments r' with
      | .error e => .error e
      | .ok (xs, ⟨r'', hr''⟩) => .ok (x :: xs, ⟨r'', by omega⟩)
    | r, _ => .error (unexpected .commaOrClose r)
termination_by 6 * ts.length + 4

end

/-- At least one parameter, and the closing parenthesis. -/
def someParameters : List PlacedToken → Except Error (List String × List PlacedToken)
  | (.ident name, _) :: (.rightParen, _) :: r => .ok ([name], r)
  | (.ident name, _) :: (.comma, _) :: r => do
    let (names, r') ← someParameters r
    .ok (name :: names, r')
  | (.ident _, _) :: r => .error (unexpected .commaOrClose r)
  | ts => .error (unexpected .identifier ts)

/-- The parameters, whose opening parenthesis is taken. -/
def parameters : List PlacedToken → Except Error (List String × List PlacedToken)
  | (.rightParen, _) :: r => .ok ([], r)
  | ts => someParameters ts

/-- The output expressions up to the end of the text. -/
def outputs (ts : List PlacedToken) : Except Error (List Expr) :=
  match expr 0 ts with
  | .error e => .error e
  | .ok (x, ⟨r, hr⟩) =>
    match r, hr with
    | (.comma, _) :: r', h =>
      have : r'.length < ts.length := by simp only [List.length_cons] at h; omega
      match outputs r' with
      | .error e => .error e
      | .ok xs => .ok (x :: xs)
    | r, _ =>
      if (r.headD (.eof, 0)).1 = .eof then .ok [x] else .error (unexpected .endOfDefinition r)
termination_by ts.length

/-- A definition before its names are checked. -/
structure Parsed where
  name : String
  params : List String
  outputs : List Expr

def definition (ts : List PlacedToken) : Except Error Parsed :=
  match ts with
  | (.ident name, _) :: (.leftParen, _) :: r => do
    let (params, r') ← parameters r
    match r' with
    | (.assign, _) :: body => .ok ⟨name, params, ← outputs body⟩
    | r' => .error (unexpected .assign r')
  | (.ident _, _) :: r => .error (unexpected .openParen r)
  | ts => .error (unexpected .identifier ts)

end Parser

end Pointwise

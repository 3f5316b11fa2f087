import Pointwise.Definition.Parser
import Pointwise.Proofs.Outcome

/-!
# The functions of the parser, step by step

One equation for each step, of what is read and which tokens are left. The bounds on the number of
these tokens are kept apart.
-/

namespace Pointwise.Parser

/-- What is read, and the tokens that are left. -/
def outcome {α : Type} {P : List PlacedToken → Prop} (x : Except Error (α × {r // P r})) :
    Except Error (α × List PlacedToken) :=
  x.map fun a => (a.1, a.2.1)

variable {α : Type} {ts r : List PlacedToken} {t : Token} {offset power q : Nat} {a : α}

theorem outcome_eq_ok {P : List PlacedToken → Prop} {x : Except Error (α × {r // P r})} :
    outcome x = .ok (a, r) ↔ ∃ h : P r, x = .ok (a, ⟨r, h⟩) := by
  unfold outcome
  cases x with
  | error e => simp
  | ok b =>
    obtain ⟨b, s, hs⟩ := b
    simp only [map_ok, Except.ok.injEq, Prod.mk.injEq, Subtype.mk.injEq]
    constructor
    · rintro ⟨rfl, rfl⟩
      exact ⟨hs, rfl, rfl⟩
    · rintro ⟨-, rfl, rfl⟩
      exact ⟨rfl, rfl⟩

theorem length_lt {x : Except Error (α × Fewer ts)} (h : outcome x = .ok (a, r)) :
    r.length < ts.length := (outcome_eq_ok.1 h).1

/-- The next token, which is the end if there is none. -/
def peek (ts : List PlacedToken) : Token := (ts.headD (.eof, 0)).1

@[simp] theorem peek_cons : peek ((t, offset) :: ts) = t := rfl

theorem exists_of_peek (h : peek ts = t) (ht : t ≠ .eof) :
    ∃ offset r, ts = (t, offset) :: r := by
  cases ts with
  | nil => exact absurd h.symm ht
  | cons p r =>
    obtain ⟨_, offset⟩ := p
    obtain rfl : _ = t := h
    exact ⟨offset, r, rfl⟩

end Pointwise.Parser

namespace Pointwise

/-- How tightly a token binds as a binary operator, 0 if it is none. -/
def Token.power (t : Token) : Nat := t.operator?.elim 0 Prod.fst

theorem Token.power_eq {t : Token} {q : Nat} {build : Expr → Expr → Expr}
    (h : t.operator? = some (q, build)) : t.power = q := by
  rw [power, h]
  rfl

theorem Token.power_le (t : Token) : t.power ≤ 6 := by
  cases t <;> simp [power, operator?]

namespace Parser

variable {α : Type} {ts r : List PlacedToken} {t : Token} {offset power q : Nat} {lhs : Expr}
  {build : Expr → Expr → Expr}

/-! ## Operators -/

theorem outcome_expr (power : Nat) (ts : List PlacedToken) :
    outcome (expr power ts) =
      outcome (unary ts) >>= fun a => outcome (climb power a.1 a.2) := by
  rw [expr]
  cases unary ts with
  | error e => rfl
  | ok a =>
    obtain ⟨lhs, r, hr⟩ := a
    show outcome _ = outcome (climb power lhs r)
    dsimp only
    cases climb power lhs r <;> rfl

theorem outcome_climb_stop (h : (peek ts).power ≤ power) :
    outcome (climb power lhs ts) = .ok (lhs, ts) := by
  cases ts with
  | nil =>
    rw [climb]
    rfl
  | cons p r =>
    obtain ⟨t, offset⟩ := p
    rw [climb]
    cases hop : t.operator? with
    | none => rfl
    | some op =>
      obtain ⟨q, build⟩ := op
      rw [peek_cons, Token.power_eq hop] at h
      dsimp only
      rw [if_pos h]
      rfl

theorem outcome_climb_operator (hop : t.operator? = some (q, build)) (h : power < q) :
    outcome (climb power lhs ((t, offset) :: r)) =
      outcome (expr q r) >>= fun a => outcome (climb power (build lhs a.1) a.2) := by
  rw [climb, hop]
  dsimp only
  rw [if_neg (by omega)]
  cases expr q r with
  | error e => rfl
  | ok a =>
    obtain ⟨rhs, r', hr'⟩ := a
    show outcome _ = outcome (climb power (build lhs rhs) r')
    dsimp only
    cases climb power (build lhs rhs) r' <;> rfl

theorem exists_operator (h : power < (peek ts).power) :
    ∃ t offset r q build, ts = (t, offset) :: r ∧ t.operator? = some (q, build) ∧ power < q := by
  cases ts with
  | nil => cases h
  | cons p r =>
    obtain ⟨t, offset⟩ := p
    rw [peek_cons] at h
    cases hop : t.operator? with
    | none => simp [Token.power, hop] at h
    | some op =>
      obtain ⟨q, build⟩ := op
      rw [Token.power_eq hop] at h
      exact ⟨t, offset, r, q, build, rfl, hop, h⟩

/-! ## Operands -/

theorem outcome_unary_minus :
    outcome (unary ((.minus, offset) :: r)) =
      outcome (unary r) >>= fun a => .ok (.neg a.1, a.2) := by
  rw [unary]
  cases unary r <;> rfl

theorem outcome_unary_not :
    outcome (unary ((.not, offset) :: r)) =
      outcome (unary r) >>= fun a => .ok (.not a.1, a.2) := by
  rw [unary]
  cases unary r <;> rfl

theorem unary_eq_primary (hminus : peek ts ≠ .minus) (hnot : peek ts ≠ .not) :
    unary ts = primary ts := by
  rw [unary.eq_def]
  split
  · exact absurd rfl hminus
  · exact absurd rfl hnot
  · rfl

theorem unary_cons_eq_primary (t : Token) (hminus : t ≠ .minus) (hnot : t ≠ .not) :
    unary ((t, offset) :: r) = primary ((t, offset) :: r) := unary_eq_primary hminus hnot

/-- The closing parenthesis after an expression. -/
def close (a : Expr × List PlacedToken) : Except Error (Expr × List PlacedToken) :=
  match a.2 with
  | (.rightParen, _) :: r => .ok (a.1, r)
  | r => .error (unexpected .closeParen r)

theorem outcome_primary_int (n : Nat) :
    outcome (primary ((.int n, offset) :: r)) = .ok (.int n, r) := by
  rw [primary]
  rfl

theorem outcome_primary_float (pattern : BitVec 64) :
    outcome (primary ((.float pattern, offset) :: r)) = .ok (.float pattern, r) := by
  rw [primary]
  rfl

theorem outcome_primary_parens :
    outcome (primary ((.leftParen, offset) :: r)) = outcome (expr 0 r) >>= close := by
  rw [primary]
  cases expr 0 r with
  | error e => rfl
  | ok a =>
    obtain ⟨x, r', hr'⟩ := a
    show outcome _ = close (x, r')
    cases r' with
    | nil => rfl
    | cons p r' =>
      obtain ⟨t, offset'⟩ := p
      cases t <;> rfl

theorem outcome_primary_true :
    outcome (primary ((.ident "true", offset) :: r)) = .ok (.bool true, r) := by
  rw [primary.eq_def]
  dsimp only
  rw [if_pos rfl]
  rfl

theorem outcome_primary_false :
    outcome (primary ((.ident "false", offset) :: r)) = .ok (.bool false, r) := by
  rw [primary.eq_def]
  dsimp only
  rw [if_neg (by decide), if_pos rfl]
  rfl

section

variable {name : String} (htrue : name ≠ "true") (hfalse : name ≠ "false")
include htrue hfalse

theorem outcome_primary_var (h : peek r ≠ .leftParen) :
    outcome (primary ((.ident name, offset) :: r)) = .ok (.var name, r) := by
  rw [primary, if_neg htrue, if_neg hfalse]
  · rfl
  · rintro offset' r' rfl
    exact h rfl

theorem outcome_primary_call {offset' : Nat} :
    outcome (primary ((.ident name, offset) :: (.leftParen, offset') :: r)) =
      outcome (arguments r) >>= fun a => makeCall name a.1 >>= fun x => .ok (x, a.2) := by
  rw [primary, if_neg htrue, if_neg hfalse]
  cases arguments r with
  | error e => rfl
  | ok a =>
    obtain ⟨args, r', hr'⟩ := a
    show outcome _ = makeCall name args >>= fun x => .ok (x, r')
    dsimp only
    cases makeCall name args <;> rfl

end

/-- Whether an operand without signs starts with a token. -/
def startsOperand : Token → Bool
  | .int _ | .float _ | .leftParen | .ident _ => true
  | _ => false

theorem outcome_primary_error (h : startsOperand (peek ts) = false) :
    outcome (primary ts) = .error (unexpected .operand ts) := by
  cases ts with
  | nil =>
    rw [primary]
    · rfl
    all_goals simp
  | cons p r =>
    obtain ⟨t, offset⟩ := p
    cases t with
    | int n => cases h
    | float p => cases h
    | leftParen => cases h
    | ident name => cases h
    | _ =>
      simp only [primary]
      rfl

/-! ## Arguments -/

/-- What comes after an argument: the end of the arguments, or more of them. -/
def afterArgument (a : Expr × List PlacedToken) : Except Error (List Expr × List PlacedToken) :=
  match a.2 with
  | (.rightParen, _) :: r => .ok ([a.1], r)
  | (.comma, _) :: r => outcome (someArguments r) >>= fun b => .ok (a.1 :: b.1, b.2)
  | r => .error (unexpected .commaOrClose r)

theorem afterArgument_comma {x : Expr} :
    afterArgument (x, (.comma, offset) :: r) =
      outcome (someArguments r) >>= fun b => .ok (x :: b.1, b.2) := rfl

theorem outcome_someArguments (ts : List PlacedToken) :
    outcome (someArguments ts) = outcome (expr 0 ts) >>= afterArgument := by
  rw [someArguments]
  cases expr 0 ts with
  | error e => rfl
  | ok a =>
    obtain ⟨x, r, hr⟩ := a
    show outcome _ = afterArgument (x, r)
    cases r with
    | nil => rfl
    | cons p r =>
      obtain ⟨t, offset⟩ := p
      cases t with
      | comma =>
        show outcome _ = outcome (someArguments r) >>= fun b => .ok (x :: b.1, b.2)
        dsimp only
        cases someArguments r <;> rfl
      | _ => rfl

theorem outcome_someArguments_close :
    outcome (someArguments ((.rightParen, offset) :: r)) =
      .error (unexpected .operand ((.rightParen, offset) :: r)) := by
  rw [outcome_someArguments, outcome_expr, unary_cons_eq_primary .rightParen nofun nofun,
    outcome_primary_error rfl, error_bind, error_bind]

theorem outcome_arguments_none :
    outcome (arguments ((.rightParen, offset) :: r)) = .ok ([], r) := by
  rw [arguments]
  rfl

theorem arguments_eq_someArguments (h : peek ts ≠ .rightParen) :
    arguments ts = someArguments ts := by
  rw [arguments.eq_def]
  split
  · exact absurd rfl h
  · rfl

/-! ## Outputs -/

/-- What comes after an output: the end of the text, or more of them. -/
def afterOutput (a : Expr × List PlacedToken) : Except Error (List Expr) :=
  match a.2 with
  | (.comma, _) :: r => outputs r >>= fun xs => .ok (a.1 :: xs)
  | r => if peek r = .eof then .ok [a.1] else .error (unexpected .endOfDefinition r)

theorem afterOutput_comma {x : Expr} :
    afterOutput (x, (.comma, offset) :: r) = outputs r >>= fun xs => .ok (x :: xs) := rfl

theorem outputs_eq (ts : List PlacedToken) :
    outputs ts = outcome (expr 0 ts) >>= afterOutput := by
  rw [outputs]
  cases expr 0 ts with
  | error e => rfl
  | ok a =>
    obtain ⟨x, r, hr⟩ := a
    show _ = afterOutput (x, r)
    cases r with
    | nil => rfl
    | cons p r =>
      obtain ⟨t, offset⟩ := p
      cases t with
      | comma =>
        show _ = outputs r >>= fun xs => .ok (x :: xs)
        dsimp only
        cases outputs r <;> rfl
      | _ => rfl

end Parser

end Pointwise

import Pointwise.Proofs.Definition.Parser

/-!
# Nothing is read past the end

What the parser returns does not depend on the tokens after the first `Eof`, and the tokens that it
leaves still have that `Eof`. This holds of its errors as well.
-/

namespace Pointwise.Parser

/-- The same tokens up to an `Eof` at `offset`, and any tokens after it. -/
inductive UpToEnd (offset : Nat) (rest rest' : List PlacedToken) :
    List PlacedToken → List PlacedToken → Prop where
  | eof : UpToEnd offset rest rest' ((.eof, offset) :: rest) ((.eof, offset) :: rest')
  | cons {t : Token} {start : Nat} {ts us : List PlacedToken} :
      t ≠ .eof → UpToEnd offset rest rest' ts us →
      UpToEnd offset rest rest' ((t, start) :: ts) ((t, start) :: us)

variable {α β : Type} {offset : Nat} {rest rest' ts us : List PlacedToken}

namespace UpToEnd

theorem peek_eq (h : UpToEnd offset rest rest' ts us) : peek ts = peek us := by
  cases h <;> rfl

theorem unexpected_eq (h : UpToEnd offset rest rest' ts us) (what : Expectation) :
    unexpected what ts = unexpected what us := by
  cases h <;> rfl

theorem of_append {w : List PlacedToken} (h : ∀ t ∈ w, t.1 ≠ .eof) :
    UpToEnd offset rest rest' (w ++ (.eof, offset) :: rest) (w ++ (.eof, offset) :: rest') := by
  induction w with
  | nil => exact .eof
  | cons t w ih => exact .cons (h t (.head _)) (ih fun u hu => h u (.tail _ hu))

theorem eq_of_peek (h : UpToEnd offset rest rest' ts us) (hpeek : peek ts = .eof) :
    ts = (.eof, offset) :: rest := by
  cases h with
  | eof => rfl
  | cons ht _ => exact absurd hpeek ht

end UpToEnd

/-- The same is read, or there is the same error, and the tokens that are left are the same up to
the end. -/
inductive Agrees (offset : Nat) (rest rest' : List PlacedToken) :
    (x y : Except Error (α × List PlacedToken)) → Prop where
  | ok {a : α} {r r' : List PlacedToken} :
      UpToEnd offset rest rest' r r' → Agrees offset rest rest' (.ok (a, r)) (.ok (a, r'))
  | error (e : Error) : Agrees offset rest rest' (.error e) (.error e)

namespace Agrees

variable {x y : Except Error (α × List PlacedToken)}

theorem bind {f g : α × List PlacedToken → Except Error (β × List PlacedToken)}
    (h : Agrees offset rest rest' x y)
    (hf : ∀ a r r', x = .ok (a, r) → UpToEnd offset rest rest' r r' →
      Agrees offset rest rest' (f (a, r)) (g (a, r'))) :
    Agrees offset rest rest' (x >>= f) (y >>= g) := by
  cases h with
  | ok hr => exact hf _ _ _ rfl hr
  | error e => exact .error e

theorem bind_eq {f g : α × List PlacedToken → Except Error β}
    (h : Agrees offset rest rest' x y)
    (hf : ∀ a r r', x = .ok (a, r) → UpToEnd offset rest rest' r r' → f (a, r) = g (a, r')) :
    x >>= f = y >>= g := by
  cases h with
  | ok hr => exact hf _ _ _ rfl hr
  | error e => rfl

theorem upToEnd {a b : α} {r r' : List PlacedToken}
    (h : Agrees offset rest rest' (.ok (a, r)) (.ok (b, r'))) : UpToEnd offset rest rest' r r' := by
  cases h with
  | ok hr => exact hr

end Agrees

/-! ## One function after the other -/

/-- The functions of the parser that call each other read `n` tokens no further than to the end. -/
structure Local (offset : Nat) (rest rest' : List PlacedToken) (n : Nat) : Prop where
  unary : ∀ {ts us}, ts.length = n → UpToEnd offset rest rest' ts us →
    Agrees offset rest rest' (outcome (unary ts)) (outcome (unary us))
  expr : ∀ power {ts us}, ts.length = n → UpToEnd offset rest rest' ts us →
    Agrees offset rest rest' (outcome (expr power ts)) (outcome (expr power us))
  climb : ∀ power lhs {ts us}, ts.length = n → UpToEnd offset rest rest' ts us →
    Agrees offset rest rest' (outcome (climb power lhs ts)) (outcome (climb power lhs us))
  someArguments : ∀ {ts us}, ts.length = n → UpToEnd offset rest rest' ts us →
    Agrees offset rest rest' (outcome (someArguments ts)) (outcome (someArguments us))
  arguments : ∀ {ts us}, ts.length = n → UpToEnd offset rest rest' ts us →
    Agrees offset rest rest' (outcome (arguments ts)) (outcome (arguments us))

theorem agrees_close {x : Expr} (h : UpToEnd offset rest rest' ts us) :
    Agrees offset rest rest' (close (x, ts)) (close (x, us)) := by
  cases h with
  | eof => exact .error _
  | @cons t _ _ _ _ hrest => cases t <;> first | exact .error _ | exact .ok hrest

section

variable (ih : ∀ m < ts.length, Local offset rest rest' m) (h : UpToEnd offset rest rest' ts us)
include ih h

theorem agrees_call {name : String} {start : Nat} (htrue : name ≠ "true")
    (hfalse : name ≠ "false") :
    Agrees offset rest rest' (outcome (primary ((.ident name, start) :: ts)))
      (outcome (primary ((.ident name, start) :: us))) := by
  by_cases hparen : peek ts = .leftParen
  case neg =>
    rw [outcome_primary_var htrue hfalse hparen,
      outcome_primary_var htrue hfalse (h.peek_eq ▸ hparen)]
    exact .ok h
  cases h with
  | eof => cases hparen
  | @cons _ _ ts us _ h =>
    obtain rfl : _ = Token.leftParen := hparen
    rw [outcome_primary_call htrue hfalse, outcome_primary_call htrue hfalse]
    refine ((ih ts.length (by simp)).arguments rfl h).bind fun args r r' _ hr => ?_
    show Agrees offset rest rest' (makeCall name args >>= _) (makeCall name args >>= _)
    cases makeCall name args with
    | error e => exact .error e
    | ok x => exact .ok hr

theorem agrees_primary :
    Agrees offset rest rest' (outcome (primary ts)) (outcome (primary us)) := by
  by_cases hstart : startsOperand (peek ts) = true
  case neg =>
    have hstart' : startsOperand (peek ts) = false := by simpa using hstart
    rw [outcome_primary_error hstart', outcome_primary_error (h.peek_eq ▸ hstart'),
      h.unexpected_eq]
    exact .error _
  cases h with
  | eof => cases hstart
  | @cons t start ts us _ h =>
  cases t with
  | int n =>
    rw [outcome_primary_int, outcome_primary_int]
    exact .ok h
  | float pattern =>
    rw [outcome_primary_float, outcome_primary_float]
    exact .ok h
  | leftParen =>
    rw [outcome_primary_parens, outcome_primary_parens]
    exact ((ih ts.length (by simp)).expr 0 rfl h).bind fun x r r' _ hr => agrees_close hr
  | ident name =>
    by_cases htrue : name = "true"
    · subst htrue
      rw [outcome_primary_true, outcome_primary_true]
      exact .ok h
    by_cases hfalse : name = "false"
    · subst hfalse
      rw [outcome_primary_false, outcome_primary_false]
      exact .ok h
    exact agrees_call (fun m hm => ih m (Nat.lt_succ_of_lt hm)) h htrue hfalse
  | _ => cases hstart

theorem agrees_unary : Agrees offset rest rest' (outcome (unary ts)) (outcome (unary us)) := by
  by_cases hminus : peek ts = .minus
  case pos =>
    cases h with
    | eof => cases hminus
    | @cons _ _ ts us _ h =>
      obtain rfl : _ = Token.minus := hminus
      rw [outcome_unary_minus, outcome_unary_minus]
      exact ((ih ts.length (by simp)).unary rfl h).bind fun x r r' _ hr => .ok hr
  by_cases hnot : peek ts = .not
  case pos =>
    cases h with
    | eof => cases hnot
    | @cons _ _ ts us _ h =>
      obtain rfl : _ = Token.not := hnot
      rw [outcome_unary_not, outcome_unary_not]
      exact ((ih ts.length (by simp)).unary rfl h).bind fun x r r' _ hr => .ok hr
  rw [unary_eq_primary hminus hnot, unary_eq_primary (h.peek_eq ▸ hminus) (h.peek_eq ▸ hnot)]
  exact agrees_primary ih h

theorem agrees_climb (power : Nat) (lhs : Expr) :
    Agrees offset rest rest' (outcome (climb power lhs ts)) (outcome (climb power lhs us)) := by
  rcases Nat.lt_or_ge power (peek ts).power with hlt | hstop
  case inr =>
    rw [outcome_climb_stop hstop, outcome_climb_stop (h.peek_eq ▸ hstop)]
    exact .ok h
  obtain ⟨t, start, ts, q, build, rfl, hop, hq⟩ := exists_operator hlt
  cases h with
  | eof => cases hop
  | @cons _ _ _ us _ h =>
    rw [outcome_climb_operator hop hq, outcome_climb_operator hop hq]
    refine ((ih ts.length (by simp)).expr q rfl h).bind fun rhs r r' hrhs hr => ?_
    exact (ih r.length (Nat.lt_succ_of_lt (length_lt hrhs))).climb power (build lhs rhs) rfl hr

theorem agrees_expr (power : Nat) :
    Agrees offset rest rest' (outcome (expr power ts)) (outcome (expr power us)) := by
  rw [outcome_expr, outcome_expr]
  refine (agrees_unary ih h).bind fun lhs r r' hlhs hr => ?_
  exact (ih r.length (length_lt hlhs)).climb power lhs rfl hr

theorem agrees_someArguments :
    Agrees offset rest rest' (outcome (someArguments ts)) (outcome (someArguments us)) := by
  rw [outcome_someArguments, outcome_someArguments]
  refine (agrees_expr ih h 0).bind fun x r r' hx hr => ?_
  have hlt := length_lt hx
  cases hr with
  | eof => exact .error _
  | @cons t start r r' _ hr =>
    cases t with
    | rightParen => exact .ok hr
    | comma =>
      rw [afterArgument_comma, afterArgument_comma]
      exact ((ih r.length (Nat.lt_of_succ_lt hlt)).someArguments rfl hr).bind
        fun xs s s' _ hs => .ok hs
    | _ => exact .error _

theorem agrees_arguments :
    Agrees offset rest rest' (outcome (arguments ts)) (outcome (arguments us)) := by
  by_cases hclose : peek ts = .rightParen
  · cases h with
    | eof => cases hclose
    | @cons _ _ ts us _ h =>
      obtain rfl : _ = Token.rightParen := hclose
      rw [outcome_arguments_none, outcome_arguments_none]
      exact .ok h
  · rw [arguments_eq_someArguments hclose, arguments_eq_someArguments (h.peek_eq ▸ hclose)]
    exact agrees_someArguments ih h

end

theorem local_all (offset : Nat) (rest rest' : List PlacedToken) (n : Nat) :
    Local offset rest rest' n := by
  -- They call each other on fewer tokens, or on the same ones in the order of their proofs.
  induction n using Nat.strongRecOn with
  | ind n ih =>
    exact {
      unary := fun hn h => agrees_unary (hn ▸ ih) h
      expr := fun power _ _ hn h => agrees_expr (hn ▸ ih) h power
      climb := fun power lhs _ _ hn h => agrees_climb (hn ▸ ih) h power lhs
      someArguments := fun hn h => agrees_someArguments (hn ▸ ih) h
      arguments := fun hn h => agrees_arguments (hn ▸ ih) h }

/-! ## Definitions -/

theorem agrees_someParameters (h : UpToEnd offset rest rest' ts us) :
    Agrees offset rest rest' (someParameters ts) (someParameters us) := by
  induction hn : ts.length using Nat.strongRecOn generalizing ts us with
  | ind n ih =>
    subst hn
    cases h with
    | eof => exact .error _
    | @cons t start ts us _ h =>
    cases t with
    | ident name =>
      cases h with
      | eof => exact .error _
      | @cons t start' ts us _ h =>
        cases t with
        | rightParen => exact .ok h
        | comma =>
          rw [someParameters, someParameters]
          have hlater := ih ts.length (Nat.lt_succ_of_lt (Nat.lt_succ_self _)) h rfl
          exact hlater.bind fun names r r' _ hr => .ok hr
        | _ => exact .error _
    | _ => exact .error _

theorem agrees_parameters (h : UpToEnd offset rest rest' ts us) :
    Agrees offset rest rest' (parameters ts) (parameters us) := by
  cases h with
  | eof => exact .error _
  | @cons t start ts us ht h =>
    cases t with
    | rightParen => exact .ok h
    | _ => exact agrees_someParameters (.cons ht h)

theorem outputs_upToEnd (h : UpToEnd offset rest rest' ts us) : outputs ts = outputs us := by
  induction hn : ts.length using Nat.strongRecOn generalizing ts us with
  | ind n ih =>
    subst hn
    rw [outputs_eq, outputs_eq]
    refine ((local_all offset rest rest' _).expr 0 rfl h).bind_eq fun x r r' hx hr => ?_
    have hlt := length_lt hx
    cases hr with
    | eof => rfl
    | @cons t start r r' _ hr =>
      cases t with
      | comma =>
        rw [afterOutput_comma, afterOutput_comma, ih r.length (Nat.lt_of_succ_lt hlt) hr rfl]
      | _ => rfl

theorem definition_upToEnd (h : UpToEnd offset rest rest' ts us) :
    definition ts = definition us := by
  cases h with
  | eof => rfl
  | @cons t start ts us _ h =>
  cases t with
  | ident name =>
    cases h with
    | eof => rfl
    | @cons t start' ts us _ h =>
    cases t with
    | leftParen =>
      refine (agrees_parameters h).bind_eq fun params r r' _ hr => ?_
      cases hr with
      | eof => rfl
      | @cons t start'' r r' _ hr =>
        cases t with
        | assign =>
          show outputs r >>= _ = outputs r' >>= _
          rw [outputs_upToEnd hr]
        | _ => rfl
    | _ => rfl
  | _ => rfl

end Pointwise.Parser

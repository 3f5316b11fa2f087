import Pointwise.Proofs.Definition.Soundness

/-!
# What follows the grammar is read

Tokens that are derived from a symbol are read as their tree, if the token after them could not
belong to them. For a level of operators this says that the parser comes to the same place as if it
had read the tree as one operand.
-/

namespace Pointwise.Parser

open Grammar

variable {w w' : List Token} {e : Expr} {args : List Expr} {r : List PlacedToken}

/-- What comes next is neither an operator that binds tighter nor the parenthesis of a call. -/
def Stops (power : Nat) (r : List PlacedToken) : Prop :=
  (peek r).power ≤ power ∧ peek r ≠ .leftParen

theorem Stops.mono {m n : Nat} (h : Stops m r) (hmn : m ≤ n) : Stops n r :=
  ⟨Nat.le_trans h.1 hmn, h.2⟩

theorem stops_operator {t : Token} {offset q : Nat} {build : Expr → Expr → Expr}
    (h : t.operator? = some (q, build)) : Stops q ((t, offset) :: r) := by
  refine ⟨Nat.le_of_eq (Token.power_eq h), ?_⟩
  rintro rfl
  cases h

theorem stops_rightParen {offset power : Nat} : Stops power ((.rightParen, offset) :: r) :=
  ⟨Nat.zero_le _, nofun⟩

theorem stops_comma {offset power : Nat} : Stops power ((.comma, offset) :: r) :=
  ⟨Nat.zero_le _, nofun⟩

theorem stops_eof {offset power : Nat} : Stops power ((.eof, offset) :: r) :=
  ⟨Nat.zero_le _, nofun⟩

theorem exists_cons {t : Token} {u : List PlacedToken} (h : u.map Prod.fst = t :: w) :
    ∃ offset v, u = (t, offset) :: v ∧ v.map Prod.fst = w := by
  obtain ⟨⟨_, offset⟩, v, rfl, rfl, hv⟩ := List.map_eq_cons_iff.1 h
  exact ⟨offset, v, rfl, hv⟩

theorem exists_between {t : Token} {u : List PlacedToken} (h : u.map Prod.fst = w ++ t :: w') :
    ∃ v offset v', u = v ++ (t, offset) :: v' ∧ v.map Prod.fst = w ∧ v'.map Prod.fst = w' := by
  obtain ⟨v, _, rfl, hv, hrest⟩ := List.map_eq_append_iff.1 h
  obtain ⟨offset, v', rfl, hv'⟩ := exists_cons hrest
  exact ⟨v, offset, v', rfl, hv, hv'⟩

/-- Tokens with a tree are read as that tree. -/
def Complete : Symbol → List Token → Expr → Prop
  | .chain l, w, e => ∀ u r, u.map Prod.fst = w → Stops l.power r →
    ∀ power < l.power, outcome (expr power (u ++ r)) = outcome (climb power e r)
  | _, w, e => ∀ u r, u.map Prod.fst = w → peek r ≠ .leftParen →
    outcome (unary (u ++ r)) = .ok (e, r)

namespace Complete

theorem expr {l : Level} (h : Complete l.operand w e) {u : List PlacedToken}
    (hu : u.map Prod.fst = w) (hr : Stops l.power r) {power : Nat} (hpower : power ≤ l.power) :
    outcome (Parser.expr power (u ++ r)) = outcome (climb power e r) := by
  cases l with
  | mul => rw [outcome_expr, h u r hu hr.2, ok_bind]
  | _ => exact h u r hu (hr.mono (Nat.le_succ _)) power (Nat.lt_succ_of_le hpower)

/-! ## Operators -/

theorem operand {l : Level} (h : Complete l.operand w e) : Complete (.chain l) w e :=
  fun _ _ hu hr _ hpower => h.expr hu hr (Nat.le_of_lt hpower)

theorem operator {l : Level} {a b : Expr} {t : Token} {build : Expr → Expr → Expr}
    (ha : Complete (.chain l) w a) (hl : l.operator? t = some build)
    (hb : Complete l.operand w' b) : Complete (.chain l) (w ++ t :: w') (build a b) := by
  intro u r hu hr power hpower
  obtain ⟨v, offset, v', rfl, hv, hv'⟩ := exists_between hu
  have hop := Level.operator?_eq_some.1 hl
  calc outcome (Parser.expr power ((v ++ (t, offset) :: v') ++ r))
      = outcome (climb power a ((t, offset) :: (v' ++ r))) := by
        rw [List.append_assoc, List.cons_append]
        exact ha v _ hv (stops_operator hop) power hpower
    _ = outcome (Parser.expr l.power (v' ++ r)) >>= fun x =>
          outcome (climb power (build a x.1) x.2) := outcome_climb_operator hop hpower
    _ = outcome (climb power (build a b) r) := by
        rw [hb.expr hv' hr (Nat.le_refl _), outcome_climb_stop hr.1, ok_bind]

/-! ## Operands -/

theorem neg (h : Complete .unary w e) : Complete .unary (.minus :: w) (.neg e) := by
  intro u r hu hr
  obtain ⟨offset, v, rfl, hv⟩ := exists_cons hu
  rw [List.cons_append, outcome_unary_minus, h v r hv hr, ok_bind]

theorem not (h : Complete .unary w e) : Complete .unary (.not :: w) (.not e) := by
  intro u r hu hr
  obtain ⟨offset, v, rfl, hv⟩ := exists_cons hu
  rw [List.cons_append, outcome_unary_not, h v r hv hr, ok_bind]

theorem primary (h : Complete .primary w e) : Complete .unary w e := h

theorem token {t : Token} (hminus : t ≠ .minus) (hnot : t ≠ .not)
    (h : ∀ offset r, peek r ≠ .leftParen →
      outcome (Parser.primary ((t, offset) :: r)) = .ok (e, r)) :
    Complete .primary [t] e := by
  intro u r hu hr
  obtain ⟨offset, v, rfl, hv⟩ := exists_cons hu
  obtain rfl := List.map_eq_nil_iff.1 hv
  rw [List.singleton_append, unary_cons_eq_primary t hminus hnot]
  exact h offset r hr

/-- An expression is read up to what cannot go on with it. -/
theorem expr_zero (h : Complete (.chain .or) w e) {u : List PlacedToken}
    (hu : u.map Prod.fst = w) (hr : Stops 0 r) :
    outcome (Parser.expr 0 (u ++ r)) = .ok (e, r) := by
  rw [h u r hu (hr.mono (Nat.zero_le _)) 0 (Level.power_pos _), outcome_climb_stop hr.1]

theorem parens (h : Complete (.chain .or) w e) :
    Complete .primary (.leftParen :: w ++ [.rightParen]) e := by
  intro u r hu _
  obtain ⟨offset, inside, rfl, hinside⟩ := exists_cons hu
  obtain ⟨v, offset', after, rfl, hv, hafter⟩ := exists_between hinside
  obtain rfl := List.map_eq_nil_iff.1 hafter
  rw [List.cons_append, unary_cons_eq_primary .leftParen nofun nofun, outcome_primary_parens,
    List.append_assoc, List.singleton_append, h.expr_zero hv stops_rightParen]
  rfl

/-! ## Calls -/

/-- At least one argument is read up to the closing parenthesis. -/
def SomeArguments (w : List Token) (args : List Expr) : Prop :=
  ∀ u offset r, u.map Prod.fst = w →
    outcome (someArguments (u ++ (.rightParen, offset) :: r)) = .ok (args, r)

/-- Arguments are read up to the closing parenthesis. -/
def Arguments (w : List Token) (args : List Expr) : Prop :=
  ∀ u offset r, u.map Prod.fst = w →
    outcome (arguments (u ++ (.rightParen, offset) :: r)) = .ok (args, r)

theorem one (h : Complete (.chain .or) w e) : SomeArguments w [e] := by
  intro u offset r hu
  rw [outcome_someArguments, h.expr_zero hu stops_rightParen]
  rfl

theorem more (h : Complete (.chain .or) w e) (hargs : SomeArguments w' args) :
    SomeArguments (w ++ .comma :: w') (e :: args) := by
  intro u offset r hu
  obtain ⟨v, offset', v', rfl, hv, hv'⟩ := exists_between hu
  rw [outcome_someArguments, List.append_assoc, List.cons_append,
    h.expr_zero hv stops_comma, ok_bind, afterArgument_comma, hargs v' offset r hv', ok_bind]

theorem noArguments : Arguments [] [] := by
  intro u offset r hu
  obtain rfl := List.map_eq_nil_iff.1 hu
  exact outcome_arguments_none

theorem SomeArguments.arguments (h : SomeArguments w args) : Arguments w args := by
  intro u offset r hu
  have hread := h u offset r hu
  rw [arguments_eq_someArguments, hread]
  intro hclose
  obtain ⟨offset', rest, hrest⟩ := exists_of_peek hclose nofun
  rw [hrest, outcome_someArguments_close] at hread
  cases hread

theorem call {name : String} (htrue : name ≠ "true") (hfalse : name ≠ "false")
    (hargs : Arguments w args) (he : Makes name args e) :
    Complete .primary (.ident name :: .leftParen :: w ++ [.rightParen]) e := by
  intro u r hu _
  obtain ⟨offset, rest, rfl, hrest⟩ := exists_cons hu
  obtain ⟨offset', inside, rfl, hinside⟩ := exists_cons hrest
  obtain ⟨v, offset'', after, rfl, hv, hafter⟩ := exists_between hinside
  obtain rfl := List.map_eq_nil_iff.1 hafter
  rw [List.cons_append, List.cons_append, unary_cons_eq_primary (.ident name) nofun nofun,
    outcome_primary_call htrue hfalse, List.append_assoc, List.singleton_append,
    hargs v offset'' r hv, ok_bind, makeCall_eq_ok.2 he, ok_bind]

end Complete

theorem complete {s : Symbol} (h : Derives s w e) : Complete s w e := by
  -- By induction on the derivation, along with those of the arguments inside it.
  refine @Derives.rec (fun s w e _ => Complete s w e) (fun w args _ => Complete.Arguments w args)
    (fun w args _ => Complete.SomeArguments w args) ?operand ?operator ?neg ?not ?primary ?int
    ?float ?parens ?true ?false ?var ?call ?none ?some ?one ?more s w e h
  case operand => exact fun _ => .operand
  case operator => exact fun _ hl _ ha hb => ha.operator hl hb
  case neg => exact fun _ => .neg
  case not => exact fun _ => .not
  case primary => exact fun _ => .primary
  case int => exact fun n => .token nofun nofun fun _ _ _ => outcome_primary_int n
  case float => exact fun pattern => .token nofun nofun fun _ _ _ => outcome_primary_float pattern
  case parens => exact fun _ => .parens
  case true => exact .token nofun nofun fun _ _ _ => outcome_primary_true
  case false => exact .token nofun nofun fun _ _ _ => outcome_primary_false
  case var =>
    exact fun htrue hfalse => .token nofun nofun fun _ _ => outcome_primary_var htrue hfalse
  case call => exact fun htrue hfalse _ he hargs => .call htrue hfalse hargs he
  case none => exact Complete.noArguments
  case some => exact fun _ => Complete.SomeArguments.arguments
  case one => exact fun _ => Complete.one
  case more => exact fun _ _ => Complete.more

end Pointwise.Parser

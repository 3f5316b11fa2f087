import Pointwise.Proofs.Definition.Grammar
import Pointwise.Proofs.Definition.Parser

/-!
# What is read follows the grammar

The tokens that a function of the parser takes are derived from its symbol, with the tree it
returns. An expression read with a binding power is one of the level above that power.
-/

namespace Pointwise

open Pointwise.Parser

namespace Grammar

/-! ## Levels and binding powers -/

def Level.power : Level → Nat
  | or => 1
  | and => 2
  | eq => 3
  | cmp => 4
  | add => 5
  | mul => 6

/-- The symbol whose operators all bind tighter than a power. -/
def symbol : Nat → Symbol
  | 0 => .chain .or
  | 1 => .chain .and
  | 2 => .chain .eq
  | 3 => .chain .cmp
  | 4 => .chain .add
  | 5 => .chain .mul
  | _ => .unary

theorem symbol_power (l : Level) : symbol l.power = l.operand := by cases l <;> rfl

theorem symbol_power_pred (l : Level) : symbol (l.power - 1) = .chain l := by cases l <;> rfl

theorem Level.power_pos (l : Level) : 0 < l.power := by cases l <;> decide

theorem Level.operator?_eq_some {l : Level} {t : Token} {build : Expr → Expr → Expr} :
    l.operator? t = some build ↔ t.operator? = some (l.power, build) := by
  cases l <;> cases t <;> simp [operator?, Token.operator?, power]

theorem exists_level {t : Token} {q : Nat} {build : Expr → Expr → Expr}
    (h : t.operator? = some (q, build)) :
    ∃ l : Level, l.power = q ∧ l.operator? t = some build := by
  cases t <;> first
    | cases h
      first
      | exact ⟨.or, rfl, rfl⟩
      | exact ⟨.and, rfl, rfl⟩
      | exact ⟨.eq, rfl, rfl⟩
      | exact ⟨.cmp, rfl, rfl⟩
      | exact ⟨.add, rfl, rfl⟩
      | exact ⟨.mul, rfl, rfl⟩
    | cases h

variable {w : List Token} {e : Expr}

theorem Derives.loosen {m n : Nat} (h : m ≤ n) (he : Derives (symbol n) w e) :
    Derives (symbol m) w e := by
  induction h with
  | refl => exact he
  | @step n _ ih =>
    refine ih ?_
    match n with
    | 0 | 1 | 2 | 3 | 4 | 5 => exact .operand he
    | n + 6 => exact he

theorem makeCall_eq_ok {name : String} {args : List Expr} :
    makeCall name args = .ok e ↔ Makes name args e := by
  constructor
  · intro h
    unfold makeCall at h
    split at h
    · cases h
      exact .cond ..
    · cases h
    · cases h
      exact .max ..
    · cases h
      exact .min ..
    · next hif _ hmax hmin =>
      cases h
      refine .call hif ?_
      rintro ⟨hname, hlen⟩
      obtain ⟨a, b, rfl⟩ : ∃ a b, args = [a, b] := by
        match args, hlen with
        | [a, b], _ => exact ⟨a, b, rfl⟩
      rcases List.mem_cons.1 hname with rfl | hname
      · exact hmax a b rfl rfl
      · exact hmin a b (List.mem_singleton.1 hname) rfl
  · intro h
    cases h with
    | call hif hmaxmin =>
      unfold makeCall
      split
      · exact absurd rfl hif
      · exact absurd rfl hif
      · exact absurd ⟨by decide, rfl⟩ hmaxmin
      · exact absurd ⟨by decide, rfl⟩ hmaxmin
      · rfl
    | _ => rfl

/-! ## Tokens up to others -/

section

variable {α : Type} {R : List Token → α → Prop} {ts ts' r : List PlacedToken} {x : α}

/-- The tokens before the ones that are left are related to what is read of them. -/
def Reads (R : List Token → α → Prop) (ts : List PlacedToken) (x : α) (r : List PlacedToken) :
    Prop :=
  ∃ u, ts = u ++ r ∧ R (u.map Prod.fst) x

namespace Reads

theorem mono {β : Type} {R' : List Token → β → Prop} {y : β} (h : Reads R ts x r)
    (hR : ∀ w, R w x → R' w y) : Reads R' ts y r := by
  obtain ⟨u, rfl, hu⟩ := h
  exact ⟨u, rfl, hR _ hu⟩

theorem token {t : Token} {offset : Nat} (h : R [t] x) : Reads R ((t, offset) :: r) x r :=
  ⟨[(t, offset)], rfl, h⟩

theorem cons {β : Type} {R' : List Token → β → Prop} {y : β} {t : Token} {offset : Nat}
    (h : Reads R ts x r) (hR : ∀ w, R w x → R' (t :: w) y) :
    Reads R' ((t, offset) :: ts) y r := by
  obtain ⟨u, rfl, hu⟩ := h
  exact ⟨(t, offset) :: u, rfl, hR _ hu⟩

theorem append {β γ : Type} {R' : List Token → β → Prop} {R'' : List Token → γ → Prop} {y : β}
    {z : γ} {t : Token} {offset : Nat} (h : Reads R ts x ((t, offset) :: ts'))
    (h' : Reads R' ts' y r) (hR : ∀ w w', R w x → R' w' y → R'' (w ++ t :: w') z) :
    Reads R'' ts z r := by
  obtain ⟨u, rfl, hu⟩ := h
  obtain ⟨u', rfl, hu'⟩ := h'
  refine ⟨u ++ (t, offset) :: u', by simp, ?_⟩
  rw [List.map_append, List.map_cons]
  exact hR _ _ hu hu'

end Reads

end

end Grammar

namespace Parser

open Grammar

variable {ts r : List PlacedToken} {e x : Expr} {args : List Expr}

theorem of_close (h : close (x, r) = .ok (e, ts)) :
    e = x ∧ ∃ offset, r = (.rightParen, offset) :: ts := by
  unfold close at h
  split at h
  · next offset r' hr =>
    cases h
    exact ⟨rfl, offset, hr⟩
  · cases h

theorem of_afterArgument (h : afterArgument (x, r) = .ok (args, ts)) :
    (args = [x] ∧ ∃ offset, r = (.rightParen, offset) :: ts) ∨
      ∃ offset r' xs, args = x :: xs ∧ r = (.comma, offset) :: r' ∧
        outcome (someArguments r') = .ok (xs, ts) := by
  unfold afterArgument at h
  split at h
  · next offset r' hr =>
    cases h
    exact .inl ⟨rfl, offset, hr⟩
  · next offset r' hr =>
    obtain ⟨⟨xs, rest⟩, hxs, h⟩ := bind_eq_ok.1 h
    cases h
    exact .inr ⟨offset, r', xs, rfl, hr, hxs⟩
  · cases h

/-! ## One function after the other -/

/-- What the functions of the parser that call each other read of `n` tokens is derived. -/
structure Sound (n : Nat) : Prop where
  unary : ∀ {ts e r}, ts.length = n → outcome (unary ts) = .ok (e, r) →
    Reads (Derives .unary) ts e r
  expr : ∀ power {ts e r}, ts.length = n → outcome (expr power ts) = .ok (e, r) →
    Reads (Derives (symbol power)) ts e r ∧ (peek r).power ≤ power
  /-- The operand is one of a level not looser than `power`, and no operator that would bind
  tighter than its level follows it. -/
  climb : ∀ power m {ts₀ lhs ts e r}, ts.length = n → Reads (Derives (symbol m)) ts₀ lhs ts →
    power ≤ m → (peek ts).power ≤ m + 1 → outcome (climb power lhs ts) = .ok (e, r) →
    Reads (Derives (symbol power)) ts₀ e r ∧ (peek r).power ≤ power
  someArguments : ∀ {ts args r}, ts.length = n → outcome (someArguments ts) = .ok (args, r) →
    ∃ offset, Reads (Commas (Derives (.chain .or))) ts args ((.rightParen, offset) :: r)
  arguments : ∀ {ts args r}, ts.length = n → outcome (arguments ts) = .ok (args, r) →
    ∃ offset, Reads (Listed (Derives (.chain .or))) ts args ((.rightParen, offset) :: r)

section

variable (ih : ∀ m < ts.length, Sound m)
include ih

theorem sound_call {name : String} {offset : Nat} (htrue : name ≠ "true") (hfalse : name ≠ "false")
    (h : outcome (primary ((.ident name, offset) :: ts)) = .ok (e, r))
    (hparen : peek ts = .leftParen) :
    Reads (Derives .primary) ((.ident name, offset) :: ts) e r := by
  cases ts with
  | nil => cases hparen
  | cons p ts =>
    obtain ⟨_, offset'⟩ := p
    obtain rfl : _ = Token.leftParen := hparen
    rw [outcome_primary_call htrue hfalse] at h
    obtain ⟨⟨args, rest⟩, hargs, h⟩ := bind_eq_ok.1 h
    obtain ⟨x, hcall, h⟩ := bind_eq_ok.1 h
    cases h
    obtain ⟨offset'', u, rfl, hu⟩ := (ih ts.length (by simp)).arguments rfl hargs
    refine ⟨(.ident name, offset) :: (.leftParen, offset') :: u ++ [(.rightParen, offset'')],
      by simp, ?_⟩
    simpa using Derives.call htrue hfalse hu (makeCall_eq_ok.1 hcall)

theorem sound_primary (h : outcome (primary ts) = .ok (e, r)) :
    Reads (Derives .primary) ts e r := by
  by_cases hstart : startsOperand (peek ts) = true
  case neg =>
    rw [outcome_primary_error (by simpa using hstart)] at h
    cases h
  cases ts with
  | nil => cases hstart
  | cons p ts =>
  obtain ⟨t, offset⟩ := p
  cases t with
  | int n =>
    rw [outcome_primary_int] at h
    cases h
    exact .token (.int n)
  | float pattern =>
    rw [outcome_primary_float] at h
    cases h
    exact .token (.float pattern)
  | leftParen =>
    rw [outcome_primary_parens] at h
    obtain ⟨⟨x, rest⟩, hx, h⟩ := bind_eq_ok.1 h
    obtain ⟨rfl, offset', rfl⟩ := of_close h
    obtain ⟨⟨u, rfl, hu⟩, -⟩ := (ih ts.length (by simp)).expr 0 rfl hx
    refine ⟨(.leftParen, offset) :: u ++ [(.rightParen, offset')], by simp, ?_⟩
    simpa using Derives.parens hu
  | ident name =>
    by_cases htrue : name = "true"
    · subst htrue
      rw [outcome_primary_true] at h
      cases h
      exact .token .true
    by_cases hfalse : name = "false"
    · subst hfalse
      rw [outcome_primary_false] at h
      cases h
      exact .token .false
    by_cases hparen : peek ts = .leftParen
    · exact sound_call (fun m hm => ih m (Nat.lt_succ_of_lt hm)) htrue hfalse h hparen
    · rw [outcome_primary_var htrue hfalse hparen] at h
      cases h
      exact .token (.var htrue hfalse)
  | _ => cases hstart

theorem sound_unary (h : outcome (unary ts) = .ok (e, r)) : Reads (Derives .unary) ts e r := by
  by_cases hminus : peek ts = .minus
  case pos =>
    obtain ⟨offset, ts, rfl⟩ := exists_of_peek hminus nofun
    rw [outcome_unary_minus] at h
    obtain ⟨⟨x, rest⟩, hx, h⟩ := bind_eq_ok.1 h
    cases h
    exact ((ih ts.length (by simp)).unary rfl hx).cons fun _ => .neg
  by_cases hnot : peek ts = .not
  case pos =>
    obtain ⟨offset, ts, rfl⟩ := exists_of_peek hnot nofun
    rw [outcome_unary_not] at h
    obtain ⟨⟨x, rest⟩, hx, h⟩ := bind_eq_ok.1 h
    cases h
    exact ((ih ts.length (by simp)).unary rfl hx).cons fun _ => .not
  rw [unary_eq_primary hminus hnot] at h
  exact (sound_primary ih h).mono fun _ => .primary

theorem sound_climb {power m : Nat} {ts₀ : List PlacedToken} {lhs : Expr}
    (hlhs : Reads (Derives (symbol m)) ts₀ lhs ts) (hm : power ≤ m)
    (hpeek : (peek ts).power ≤ m + 1) (h : outcome (climb power lhs ts) = .ok (e, r)) :
    Reads (Derives (symbol power)) ts₀ e r ∧ (peek r).power ≤ power := by
  rcases Nat.lt_or_ge power (peek ts).power with hlt | hstop
  case inr =>
    rw [outcome_climb_stop hstop] at h
    cases h
    exact ⟨hlhs.mono fun _ => .loosen hm, hstop⟩
  obtain ⟨t, offset, ts, q, build, rfl, hop, hq⟩ := exists_operator hlt
  obtain ⟨l, rfl, hl⟩ := exists_level hop
  rw [peek_cons, Token.power_eq hop] at hpeek
  rw [outcome_climb_operator hop hq] at h
  obtain ⟨⟨rhs, rest⟩, hrhs, h⟩ := bind_eq_ok.1 h
  obtain ⟨hrhs', hrest⟩ := (ih ts.length (by simp)).expr l.power rfl hrhs
  rw [symbol_power] at hrhs'
  -- The operand so far is one of the operator's own level, and so is the result.
  have hchain : Reads (Derives (.chain l)) ts₀ lhs ((t, offset) :: ts) := by
    rw [← symbol_power_pred]
    exact hlhs.mono fun _ => .loosen (by omega)
  have hbuilt : Reads (Derives (symbol (l.power - 1))) ts₀ (build lhs rhs) rest := by
    rw [symbol_power_pred]
    exact hchain.append hrhs' fun _ _ ha hb => .operator ha hl hb
  exact (ih rest.length (Nat.lt_succ_of_lt (length_lt hrhs))).climb power (l.power - 1) rfl hbuilt
    (by omega) (by omega) h

theorem sound_expr {power : Nat} (h : outcome (expr power ts) = .ok (e, r)) :
    Reads (Derives (symbol power)) ts e r ∧ (peek r).power ≤ power := by
  rw [outcome_expr] at h
  obtain ⟨⟨lhs, rest⟩, hlhs, h⟩ := bind_eq_ok.1 h
  -- An operand with its signs is one of every level.
  exact (ih rest.length (length_lt hlhs)).climb power (power + 6) rfl (sound_unary ih hlhs)
    (by omega) (Nat.le_trans (Token.power_le _) (by omega)) h

theorem sound_someArguments (h : outcome (someArguments ts) = .ok (args, r)) :
    ∃ offset, Reads (Commas (Derives (.chain .or))) ts args ((.rightParen, offset) :: r) := by
  rw [outcome_someArguments] at h
  obtain ⟨⟨x, rest⟩, hx, h⟩ := bind_eq_ok.1 h
  have hlt := length_lt hx
  obtain ⟨hx, -⟩ := sound_expr ih hx
  rcases of_afterArgument h with ⟨rfl, offset, rfl⟩ | ⟨offset, r', xs, rfl, rfl, hxs⟩
  · exact ⟨offset, hx.mono fun _ => .one⟩
  · obtain ⟨offset', hxs⟩ :=
      (ih r'.length (Nat.lt_of_succ_lt hlt)).someArguments rfl hxs
    exact ⟨offset', hx.append hxs fun _ _ => .more⟩

theorem sound_arguments (h : outcome (arguments ts) = .ok (args, r)) :
    ∃ offset, Reads (Listed (Derives (.chain .or))) ts args ((.rightParen, offset) :: r) := by
  by_cases hclose : peek ts = .rightParen
  · obtain ⟨offset, ts, rfl⟩ := exists_of_peek hclose nofun
    rw [outcome_arguments_none] at h
    cases h
    exact ⟨offset, [], rfl, .none⟩
  · rw [arguments_eq_someArguments hclose] at h
    obtain ⟨offset, hargs⟩ := sound_someArguments ih h
    exact ⟨offset, hargs.mono fun _ => .some⟩

end

theorem sound (n : Nat) : Sound n := by
  -- They call each other on fewer tokens, or on the same ones in the order of their proofs.
  induction n using Nat.strongRecOn with
  | ind n ih =>
    exact {
      unary := fun hn => sound_unary (hn ▸ ih)
      expr := fun _ {_ _ _} hn => sound_expr (hn ▸ ih)
      climb := fun _ _ {_ _ _ _ _} hn => sound_climb (hn ▸ ih)
      someArguments := fun hn => sound_someArguments (hn ▸ ih)
      arguments := fun hn => sound_arguments (hn ▸ ih) }

end Parser

end Pointwise

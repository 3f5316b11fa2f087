import Pointwise.Proofs.Definition.Completeness
import Pointwise.Proofs.Definition.EndOfText
import Pointwise.Proofs.Definition.Equality

/-!
# The parser recognises the grammar

A text is parsed exactly if its tokens are a definition, and then as what the grammar says.
-/

namespace Pointwise.Parser

open Grammar

variable {offset : Nat} {ts rest r : List PlacedToken} {w : List Token}

/-! ## Parameters -/

/-- A parameter is a name. -/
abbrev IsParameter (v : List Token) (param : String) : Prop := v = [.ident param]

theorem sound_someParameters {params : List String} (h : someParameters ts = .ok (params, r)) :
    ∃ offset, Reads (Commas IsParameter) ts params ((.rightParen, offset) :: r) := by
  induction ts using someParameters.induct generalizing params with
  | case1 name start offset r =>
    cases h
    exact ⟨offset, .token (.one rfl)⟩
  | case2 name start offset ts ih =>
    rw [someParameters] at h
    obtain ⟨⟨names, r'⟩, hnames, h⟩ := bind_eq_ok.1 h
    cases h
    obtain ⟨offset', hreads⟩ := ih hnames
    have hname : Reads IsParameter ((.ident name, start) :: (.comma, offset) :: ts) name
        ((.comma, offset) :: ts) := .token rfl
    exact ⟨offset', hname.append hreads fun _ _ => .more⟩
  | case3 name start r hclose hcomma =>
    rw [someParameters] at h
    · cases h
    · exact hclose
    · exact hcomma
  | case4 ts hclose hcomma hident =>
    rw [someParameters] at h
    · cases h
    all_goals assumption

theorem sound_parameters {params : List String} (h : parameters ts = .ok (params, r)) :
    ∃ offset, Reads (Listed IsParameter) ts params ((.rightParen, offset) :: r) := by
  unfold parameters at h
  split at h
  · next offset r' =>
    cases h
    exact ⟨offset, [], rfl, .none⟩
  · obtain ⟨offset, hreads⟩ := sound_someParameters h
    exact ⟨offset, hreads.mono fun _ => .some⟩

theorem someParameters_of_commas {params : List String} (h : Commas IsParameter w params)
    {u : List PlacedToken} (hu : u.map Prod.fst = w) :
    someParameters (u ++ (.rightParen, offset) :: r) = .ok (params, r) := by
  induction h generalizing u with
  | one hname =>
    subst hname
    obtain ⟨start, v, rfl, hv⟩ := exists_cons hu
    obtain rfl := List.map_eq_nil_iff.1 hv
    rfl
  | more hname _ ih =>
    subst hname
    obtain ⟨start, v, rfl, hv⟩ := exists_cons hu
    obtain ⟨start', v', rfl, hv'⟩ := exists_cons hv
    rw [List.cons_append, List.cons_append, someParameters, ih hv', ok_bind]

theorem parameters_of_listed {params : List String} (h : Listed IsParameter w params)
    {u : List PlacedToken} (hu : u.map Prod.fst = w) :
    parameters (u ++ (.rightParen, offset) :: r) = .ok (params, r) := by
  cases h with
  | none =>
    obtain rfl := List.map_eq_nil_iff.1 hu
    rfl
  | some h =>
    have hsome : someParameters (u ++ (.rightParen, offset) :: r) = .ok (params, r) :=
      someParameters_of_commas h hu
    unfold parameters
    split
    · next heq =>
      rw [heq] at hsome
      cases hsome
    · exact hsome

/-! ## Outputs -/

theorem sound_outputs {xs : List Expr} (hend : UpToEnd offset rest rest ts ts)
    (h : outputs ts = .ok xs) :
    Reads (Commas (Derives (.chain .or))) ts xs ((.eof, offset) :: rest) := by
  induction hn : ts.length using Nat.strongRecOn generalizing ts xs with
  | ind n ih =>
    subst hn
    rw [outputs_eq] at h
    obtain ⟨⟨x, r⟩, hx, h⟩ := bind_eq_ok.1 h
    have hlt := length_lt hx
    have hlocal := (local_all offset rest rest _).expr 0 rfl hend
    rw [hx] at hlocal
    have hr := hlocal.upToEnd
    obtain ⟨hx, -⟩ := (sound _).expr 0 rfl hx
    unfold afterOutput at h
    split at h
    · next start r' hcomma =>
      obtain rfl : r = _ := hcomma
      obtain ⟨ys, hys, h⟩ := bind_eq_ok.1 h
      cases h
      cases hr with
      | cons _ hr =>
        exact hx.append (ih r'.length (Nat.lt_of_succ_lt hlt) hr hys rfl) fun _ _ => .more
    · split at h
      · next hpeek =>
        cases h
        rw [← hr.eq_of_peek hpeek]
        exact hx.mono fun _ => .one
      · cases h

theorem outputs_of_commas {xs : List Expr} (h : Commas (Derives (.chain .or)) w xs)
    {u : List PlacedToken} (hu : u.map Prod.fst = w) :
    outputs (u ++ (.eof, offset) :: rest) = .ok xs := by
  induction h generalizing u with
  | one hx =>
    rw [outputs_eq, (complete hx).expr_zero hu stops_eof]
    rfl
  | more hx _ ih =>
    obtain ⟨v, start, v', rfl, hv, hv'⟩ := exists_between hu
    rw [outputs_eq, List.append_assoc, List.cons_append, (complete hx).expr_zero hv stops_comma,
      ok_bind, afterOutput_comma, ih hv', ok_bind]

/-! ## Definitions -/

theorem sound_definition {p : Parsed} (hts : ∀ t ∈ ts, t.1 ≠ .eof)
    (h : definition (ts ++ (.eof, offset) :: rest) = .ok p) :
    IsDefinition (ts.map Prod.fst ++ [.eof]) p := by
  have hend : UpToEnd offset rest rest (ts ++ (.eof, offset) :: rest)
    (ts ++ (.eof, offset) :: rest) := .of_append hts
  generalize hall : ts ++ (.eof, offset) :: rest = all at h hend
  unfold definition at h
  split at h
  · next name start start' r =>
    obtain ⟨⟨params, r'⟩, hparams, h⟩ := bind_eq_ok.1 h
    dsimp only at h
    split at h
    · next start'' body =>
      obtain ⟨outputs, houtputs, h⟩ := bind_eq_ok.1 h
      cases h
      cases hend with
      | cons _ hend =>
      cases hend with
      | cons _ hend =>
      have hagrees := agrees_parameters hend
      rw [hparams] at hagrees
      cases hagrees.upToEnd with
      | cons _ hbody =>
      obtain ⟨start₃, u, rfl, hu⟩ := sound_parameters hparams
      obtain ⟨u', rfl, hu'⟩ := sound_outputs hbody houtputs
      have hts : ts = (.ident name, start) :: (.leftParen, start') :: u ++
          (.rightParen, start₃) :: (.assign, start'') :: u' :=
        List.append_cancel_right (by simpa using hall)
      subst hts
      have hname : IsDefinition _ ⟨name, params, outputs⟩ := .intro hu hu'
      simpa using hname
    · cases h
  · cases h
  · cases h

theorem definition_of_isDefinition {p : Parsed} (h : IsDefinition (ts.map Prod.fst ++ [.eof]) p) :
    definition (ts ++ (.eof, offset) :: rest) = .ok p := by
  generalize hw : ts.map Prod.fst ++ [.eof] = w at h
  cases h with
  | @intro name v v' params outputs hparams houtputs =>
    obtain ⟨start, r, rfl, hr⟩ := exists_cons (List.append_cancel_right hw)
    obtain ⟨start', r', rfl, hr'⟩ := exists_cons hr
    obtain ⟨u, start₂, body, rfl, hu, hbody⟩ := exists_between hr'
    obtain ⟨start₃, u', rfl, hu'⟩ := exists_cons hbody
    rw [List.cons_append, List.cons_append, List.append_assoc, List.cons_append, List.cons_append,
      definition, parameters_of_listed hparams hu, ok_bind]
    dsimp only
    rw [outputs_of_commas houtputs hu', ok_bind]

/-- Tokens up to an `Eof` are parsed as a definition exactly if they are derived as that definition,
and what comes after the `Eof` changes nothing, not even an error. -/
theorem definition_eq_ok_iff (h : ∀ t ∈ ts, t.1 ≠ .eof) (offset : Nat) :
    (∀ p : Parsed, definition (ts ++ [(.eof, offset)]) = .ok p ↔
        IsDefinition ((ts ++ [(Token.eof, offset)]).map Prod.fst) p) ∧
      ∀ rest, definition (ts ++ (.eof, offset) :: rest) = definition (ts ++ [(.eof, offset)]) := by
  refine ⟨fun p => ?_, fun rest => definition_upToEnd (.of_append h)⟩
  rw [List.map_append]
  exact ⟨sound_definition h, definition_of_isDefinition⟩

/-- The tokens of `f(x, y) = if(x < -y, max(x, 2) * y - 1, g(x))`, one after the other. -/
def guarded : List PlacedToken :=
  [.ident "f", .leftParen, .ident "x", .comma, .ident "y", .rightParen, .assign, .ident "if",
    .leftParen, .ident "x", .lt, .minus, .ident "y", .comma, .ident "max", .leftParen, .ident "x",
    .comma, .int 2, .rightParen, .star, .ident "y", .minus, .int 1, .comma, .ident "g", .leftParen,
    .ident "x", .rightParen, .rightParen].zipIdx

def guardedBody : Expr :=
  .cond (.compare .lt (.var "x") (.neg (.var "y")))
    (.arith .sub (.arith .mul (.arith .max (.var "x") (.int 2)) (.var "y")) (.int 1))
    (.call "g" [.var "x"])

theorem definition_eq_ok_iff_guarded :
    (∀ t ∈ guarded, t.1 ≠ .eof) ∧
      IsDefinition ((guarded ++ [(Token.eof, 30)]).map Prod.fst) ⟨"f", ["x", "y"], [guardedBody]⟩ ∧
      definition (guarded ++ [(.eof, 30), (.comma, 31)]) =
        .ok ⟨"f", ["x", "y"], [guardedBody]⟩ := by
  have hclosed : ∀ t ∈ guarded, t.1 ≠ .eof := by decide
  obtain ⟨hiff, hrest⟩ := definition_eq_ok_iff hclosed 30
  have hread : definition (guarded ++ [(.eof, 30)]) = .ok ⟨"f", ["x", "y"], [guardedBody]⟩ := by
    decide +kernel
  exact ⟨hclosed, (hiff _).1 hread, (hrest [(.comma, 31)]).trans hread⟩

end Pointwise.Parser

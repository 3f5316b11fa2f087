import Pointwise.Definition
import Pointwise.Proofs.Definition.Calls
import Pointwise.Proofs.Definition.Nodes
import Pointwise.Proofs.Definition.Recognition
import Pointwise.Proofs.Definition.Scanning

/-!
# Which texts are accepted

A text is read as a definition exactly if its tokens are one and the names in it are in order.
-/

namespace Pointwise

open Grammar

namespace Expr

theorem mem_vars {e : Expr} {x : String} : x ∈ e.vars ↔ .var x ∈ e.nodes := by
  rw [vars, mem_firsts, List.mem_filterMap]
  constructor
  · rintro ⟨n, hn, hx⟩
    cases n with
    | var y =>
      cases hx
      exact hn
    | _ => cases hx
  · intro h
    exact ⟨_, h, rfl⟩

end Expr

/-- Whether the names in a definition are in order. -/
structure Parser.Parsed.Accepted (p : Parser.Parsed) : Prop where
  params_ne_nil : p.params ≠ []
  length_le : p.params.length ≤ Definition.maxParams
  nodup : p.params.Nodup
  mem_params : ∀ e ∈ p.outputs, ∀ x, .var x ∈ e.nodes → x ∈ p.params

theorem Token.Scans.definition_iff {cs : List Char} {w : List Token} (h : Scans cs w)
    {ts : List PlacedToken} (hts : ts.map Prod.fst = w) {p : Parser.Parsed} :
    Parser.definition ts = .ok p ↔ IsDefinition w p := by
  obtain ⟨us, rfl, hus⟩ := h.exists_eof
  obtain ⟨vs, last, rfl, rfl, hlast⟩ := List.map_eq_append_iff.1 hts
  obtain ⟨⟨t, offset⟩, rfl, rfl⟩ : ∃ u : PlacedToken, last = [u] ∧ u.1 = .eof := by
    simpa using List.map_eq_singleton_iff.1 hlast
  have hne : ∀ t ∈ vs, t.1 ≠ .eof := fun t ht heq => hus (heq ▸ List.mem_map_of_mem ht)
  exact ⟨Parser.sound_definition hne, Parser.definition_of_isDefinition⟩

namespace Definition

theorem firstRepeat?_eq_none {seen xs : List String} :
    firstRepeat? seen xs = none ↔ xs.Nodup ∧ ∀ x ∈ xs, x ∉ seen := by
  induction xs generalizing seen with
  | nil => simp [firstRepeat?]
  | cons x xs ih =>
    by_cases hx : x ∈ seen
    · simp [firstRepeat?, hx]
    · simp [firstRepeat?, hx, ih]
      grind

theorem accepted_iff {p : Parser.Parsed} : p.Accepted ↔
    ¬p.params.isEmpty ∧ ¬maxParams < p.params.length ∧ firstRepeat? [] p.params = none ∧
      (p.outputs.flatMap Expr.vars).find? (· ∉ p.params) = none := by
  simp only [List.isEmpty_iff, Nat.not_lt, firstRepeat?_eq_none, List.not_mem_nil,
    not_false_eq_true, implies_true, and_true, List.find?_eq_none, List.mem_flatMap,
    Expr.mem_vars, decide_not, Bool.not_eq_true', decide_eq_false_iff_not, not_not]
  constructor
  · rintro ⟨hne, hlength, hnodup, hmem⟩
    exact ⟨hne, hlength, hnodup, fun x ⟨e, he, hx⟩ => hmem e he x hx⟩
  · rintro ⟨hne, hlength, hnodup, hmem⟩
    exact ⟨hne, hlength, hnodup, fun e he x hx => hmem x ⟨e, he, hx⟩⟩

/-- A text is read as a definition exactly if its tokens are one whose names are in order. -/
theorem parse_eq_ok_iff {text : String} {d : Definition} :
    parse text = .ok d ↔ ∃ w p, Token.Scans text.toList w ∧ IsDefinition w p ∧ p.Accepted ∧
      d = ⟨p.name, p.params, p.outputs, String.ofList (Text.trim text.toList)⟩ := by
  constructor
  · intro h
    unfold parse at h
    obtain ⟨ts, hts, h⟩ := bind_eq_ok.1 h
    obtain ⟨p, hp, h⟩ := bind_eq_ok.1 h
    have hscans : Token.Scans text.toList _ := Token.scans_of_scan hts
    refine ⟨_, p, hscans, (hscans.definition_iff rfl).1 hp, ?_⟩
    rw [accepted_iff]
    simp only [throw_eq_error, error_bind, pure_eq_ok] at h
    split at h
    · cases h
    next hempty =>
    split at h
    · cases h
    next hlength =>
    split at h
    · cases h
    next hnodup =>
    split at h
    · cases h
    next hvars =>
    cases h
    exact ⟨⟨hempty, hlength, Option.eq_none_iff_forall_ne_some.2 hnodup,
      Option.eq_none_iff_forall_ne_some.2 hvars⟩, rfl⟩
  · rintro ⟨w, p, hscans, hp, haccepted, rfl⟩
    obtain ⟨ts, hts, heq⟩ := hscans.scan 0
    obtain ⟨hempty, hlength, hnodup, hvars⟩ := accepted_iff.1 haccepted
    unfold parse
    rw [Token.scanAll, hts, ok_bind, (hscans.definition_iff heq).2 hp, ok_bind,
      if_neg hempty, if_neg hlength, hnodup, hvars]
    rfl

theorem accepted_of_parse {text : String} {d : Definition} (h : parse text = .ok d) :
    (⟨d.name, d.params, d.outputs⟩ : Parser.Parsed).Accepted := by
  obtain ⟨w, p, -, -, haccepted, rfl⟩ := parse_eq_ok_iff.1 h
  exact haccepted

end Definition

end Pointwise

import Pointwise.Proofs.Definition.Accepted
import Pointwise.Proofs.Definition.RenamedGrammar

/-!
# Definitions with other names of parameters

Whatever the new names are, as long as they are different names, the text is read again.
-/

namespace Pointwise

open Pointwise.Expr Token

/-- The name that replaces `x` where the names `ps` become `qs`, one by one. -/
def newName (ps qs : List String) (x : String) : String := ((ps.zip qs).lookup x).getD x

section

variable {ps qs : List String} {x : String}

theorem newName_cons {p q : String} :
    newName (p :: ps) (q :: qs) x = if x = p then q else newName ps qs x := by
  unfold newName
  rw [List.zip_cons_cons, List.lookup_cons]
  by_cases h : x = p
  · simp [h]
  · simp [h, beq_eq_false_iff_ne.2 h]

theorem newName_of_notMem (h : x ∉ ps) : newName ps qs x = x := by
  induction ps generalizing qs with
  | nil => rfl
  | cons p ps ih =>
    rw [List.mem_cons, not_or] at h
    cases qs with
    | nil => rfl
    | cons q qs => rw [newName_cons, if_neg h.1, ih h.2]

theorem map_newName (hps : ps.Nodup) (hlength : qs.length = ps.length) :
    ps.map (newName ps qs) = qs := by
  induction ps generalizing qs with
  | nil => exact (List.length_eq_zero_iff.1 hlength).symm
  | cons p ps ih =>
    obtain ⟨hp, hrest⟩ := List.nodup_cons.1 hps
    cases qs with
    | nil => cases hlength
    | cons q qs =>
      have htail : ∀ x ∈ ps, newName (p :: ps) (q :: qs) x = newName ps qs x := by
        intro x hx
        have hne : x ≠ p := fun heq => hp (heq ▸ hx)
        rw [newName_cons, if_neg hne]
      rw [List.map_cons, newName_cons, if_pos rfl, List.map_congr_left htail,
        ih hrest (Nat.succ.inj hlength)]

theorem isName_newName (hqs : ∀ q ∈ qs, isName q = true) (hx : isName x = true) :
    isName (newName ps qs x) = true := by
  induction ps generalizing qs with
  | nil => exact hx
  | cons p ps ih =>
    cases qs with
    | nil => exact hx
    | cons q qs =>
      rw [newName_cons]
      split
      · exact hqs q (.head _)
      · exact ih fun r hr => hqs r (.tail _ hr)

end

variable {σ : String → String} {text : String} {d : Definition}

theorem Parser.Parsed.Accepted.rename {p : Parser.Parsed} (h : p.Accepted) (hparams : (p.params.map σ).Nodup)
    (hfix : ∀ x ∉ p.params, σ x = x) :
    (⟨p.name, p.params.map σ, p.outputs.map (reword σ)⟩ : Parser.Parsed).Accepted := by
  refine ⟨by simpa using h.params_ne_nil, by simpa using h.length_le, hparams, ?_⟩
  intro e' he' y hy
  obtain ⟨e, he, rfl⟩ := List.mem_map.1 he'
  rcases exists_of_mem_nodes_subst hy with ⟨x, hx, hy⟩ | ⟨b, hb, hy⟩
  · obtain ⟨rfl, -⟩ := mem_nodes_named.1 hy
    exact List.mem_map_of_mem (h.mem_params e he x hx)
  · obtain ⟨rfl, hword⟩ := mem_nodes_named.1 hy
    by_cases hparam : word b ∈ p.params
    · exact List.mem_map_of_mem hparam
    · rw [hfix _ hparam] at hword
      exact absurd rfl (hword b)

namespace Definition

/-- The text with other names of its parameters is read as the definition with other names, and with
other words. -/
theorem parse_renameText (hσ : ∀ x, isName x = true → isName (σ x) = true)
    (hfix : ∀ x ∉ d.params, σ x = x) (hparams : (d.params.map σ).Nodup)
    (h : parse text = .ok d) :
    ∃ d', parse (String.ofList (renameText σ text.toList)) = .ok d' ∧ d'.name = d.name ∧
      d'.params = d.params.map σ ∧ d'.outputs = d.outputs.map (reword σ) := by
  obtain ⟨w, p, hscans, hp, haccepted, rfl⟩ := parse_eq_ok_iff.1 h
  have hscans' : Scans (renameText σ text.toList) (renameTokens σ w) := hscans.rename hσ hp.apart
  refine ⟨_, parse_eq_ok_iff.2 ⟨_, _, ?_, hp.rename, haccepted.rename hparams hfix, rfl⟩, rfl, rfl,
    rfl⟩
  rwa [String.toList_ofList]

end Definition

end Pointwise

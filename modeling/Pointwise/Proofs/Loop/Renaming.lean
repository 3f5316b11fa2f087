import Pointwise.Proofs.Definition.Equality
import Pointwise.Proofs.Definition.RenamedDefinition
import Pointwise.Proofs.Loop.RenamedParameters

/-!
# Names of parameters do not matter

A definition with other names of its parameters is the same function, unless a name becomes one of
the words `true` and `false`, or was one of them.
-/

namespace Pointwise.Definition

open Pointwise.Expr Token

/-- Wherever other names are given to the parameters, the text is read again. Its expressions are
those with other names exactly if no truth value comes or goes, and then the same loops are
compiled. -/
theorem parse_renamed {text : String} {d : Definition} (qs : List String)
    (h : parse text = .ok d) (hlength : qs.length = d.params.length) (hnodup : qs.Nodup)
    (hnames : ∀ q ∈ qs, isName q = true) :
    ∃ d', parse (String.ofList (renameText (newName d.params qs) text.toList)) = .ok d' ∧
      d'.name = d.name ∧ d'.params = qs ∧
      (d'.outputs = d.outputs.map (renameVars (newName d.params qs)) ↔
        ∀ e ∈ d.outputs, e.KeepsWords (newName d.params qs)) ∧
      ((∀ e ∈ d.outputs, e.KeepsWords (newName d.params qs)) →
        ∀ hosts options args ret,
          (∃ e, Loop.compile d hosts options args ret = .error e ∧
            Loop.compile d' hosts options args ret = .error e) ∨
          ∃ l l', Loop.compile d hosts options args ret = .ok l ∧
            Loop.compile d' hosts options args ret = .ok l' ∧ l.Alike l' ∧
            ∀ values, l'.invoke values = l.invoke values) := by
  have haccepted := accepted_of_parse h
  have hqs : d.params.map (newName d.params qs) = qs := map_newName haccepted.nodup hlength
  obtain ⟨d', hparse, hname, hparams, houtputs⟩ :=
    parse_renameText (fun _ => isName_newName hnames) (fun _ => newName_of_notMem)
      (hqs.symm ▸ hnodup) h
  rw [hqs] at hparams
  have hiff : d'.outputs = d.outputs.map (renameVars (newName d.params qs)) ↔
      ∀ e ∈ d.outputs, e.KeepsWords (newName d.params qs) := by
    rw [houtputs, List.map_inj_left]
    exact forall₂_congr fun e _ => reword_eq_renameVars_iff
  refine ⟨d', hparse, hname, hparams, hiff, fun hwords hosts options args ret => ?_⟩
  have hrenamed : d.Renamed (newName d.params qs) d' :=
    ⟨hname, hparams.trans hqs.symm, hparams ▸ hnodup, hiff.2 hwords, haccepted.mem_params⟩
  rcases Loop.compile_renamed hrenamed hosts options args ret with herror | ⟨l, l', hl, hl', halike⟩
  · exact .inl herror
  · exact .inr ⟨l, l', hl, hl', halike, halike.invoke_eq⟩

def greater : Definition :=
  ⟨"f", ["x", "max"], [.arith .max (.var "x") (.var "max")], "f(x, max) = max(x, max)"⟩

theorem parse_greater : parse "f(x, max) = max(x, max)" = .ok greater := by decide +kernel

/-- The parameters change places, and the function that is called keeps its name. -/
theorem parse_renamed_greater :
    ∃ d', parse "f(max, x) = max(max, x)" = .ok d' ∧
      d'.outputs = [.arith .max (.var "max") (.var "x")] ∧
      ∃ l l', Loop.compile greater .empty .default [.int64, .int64] none = .ok l ∧
        Loop.compile d' .empty .default [.int64, .int64] none = .ok l' ∧
        ∀ values, l'.invoke values = l.invoke values := by
  obtain ⟨d', hparse, -, -, houtputs, hcompile⟩ :=
    parse_renamed ["max", "x"] parse_greater rfl (by decide) (by decide +kernel)
  have htext : String.ofList (renameText (newName greater.params ["max", "x"])
      "f(x, max) = max(x, max)".toList) = "f(max, x) = max(max, x)" := by decide +kernel
  have hnew : newName greater.params ["max", "x"] =
      fun y => if y = "x" then "max" else if y = "max" then "x" else y := by
    funext y
    rw [greater, newName_cons, newName_cons]
    rfl
  rw [htext] at hparse
  rw [hnew] at houtputs hcompile
  have hwords : ∀ e ∈ greater.outputs,
      e.KeepsWords fun y => if y = "x" then "max" else if y = "max" then "x" else y := by
    simp [greater, KeepsWords, nodes]
  obtain ⟨l, hl⟩ : ∃ l, Loop.compile greater .empty .default [.int64, .int64] none = .ok l := by
    decide +kernel
  refine ⟨d', hparse, houtputs.2 hwords, ?_⟩
  rcases hcompile hwords .empty .default [.int64, .int64] none with
    ⟨e, he, -⟩ | ⟨l, l', hl, hl', -, hinvoke⟩
  · cases he.symm.trans hl
  · exact ⟨l, l', hl, hl', hinvoke⟩

def identity : Definition := ⟨"f", ["x"], [.var "x"], "f(x) = x"⟩

def constantTrue : Definition := ⟨"f", ["true"], [.bool true], "f(true) = true"⟩

/-- A parameter cannot be mentioned by the name `true`, and what would be the identity returns a
truth value. -/
theorem constant_of_renamed_identity :
    parse "f(x) = x" = .ok identity ∧ isName "true" = true ∧
      String.ofList (renameText (newName identity.params ["true"]) "f(x) = x".toList) =
        "f(true) = true" ∧
      parse "f(true) = true" = .ok constantTrue ∧
      constantTrue.outputs ≠ identity.outputs.map (renameVars (newName identity.params ["true"])) ∧
      (Loop.compile identity .empty .default [.int64] none).map Loop.ret = .ok .int64 ∧
      (Loop.compile constantTrue .empty .default [.int64] none).map Loop.ret = .ok .bool := by
  refine ⟨?_, ?_, ?_, ?_, ?_, ?_, ?_⟩
  all_goals decide +kernel

end Pointwise.Definition

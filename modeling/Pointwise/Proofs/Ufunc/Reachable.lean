import Pointwise.Proofs.Ufunc.Operations

/-!
# The states of a function

A function is made from a definition, and its operations change it one after the other. Whatever
they are, every loop is found under its own argument types and every adapter is one of such a loop.
-/

namespace Pointwise.Ufunc

open Stateful

/-- The functions that can come about. -/
inductive Reachable : Ufunc → Prop where
  | new {source : String} {d : Definition} (hosts : HostTable) (identity : Option Scalar)
      (options : Options) : Definition.parse source = .ok d →
      Reachable (new d hosts identity options)
  | withIdentity {u : Ufunc} (identity : Option Scalar) :
      Reachable u → Reachable { u with identity }
  | withOptions {u : Ufunc} (options : Options) : Reachable u → Reachable { u with options }
  | freeze {u : Ufunc} : Reachable u → Reachable (after freeze u)
  | compileFor {u : Ufunc} (args : List DType) (ret : Option DType) :
      Reachable u → Reachable (after (compileFor args ret) u)
  | add {u : Ufunc} (text : String) : Reachable u → Reachable (after (add text) u)
  | compileForOperands {u : Ufunc} (args : List Operand) (keywords : List (String × Operand)) :
      Reachable u → Reachable (after (compileForOperands args keywords) u)
  | typeCall {u : Ufunc} (types : List OperandType) :
      Reachable u → Reachable (after (typeCall types) u)
  | call {u : Ufunc} (args : List Operand) (keywords : List (String × Operand)) :
      Reachable u → Reachable (after (call args keywords) u)
  | reduce {u : Ufunc} (a : NDArray) (options : ReduceOptions) :
      Reachable u → Reachable (after (reduce a options) u)

variable {u : Ufunc}

/-- What a new function has, and all operations keep, is a property of all functions. -/
theorem Reachable.of_stable {P : Ufunc → Prop} (hP : Stable P)
    (hnew : ∀ d hosts identity options, P (Ufunc.new d hosts identity options))
    (hidentity : ∀ {u identity}, P u → P { u with identity })
    (hoptions : ∀ {u options}, P u → P { u with options })
    (hcompile : ∀ {u args ret l}, P u → u.Compiles args ret l → P (u.withLoop l))
    (hfreeze : ∀ {u}, P u → u.table.isEmpty = false → P { u with frozen := true })
    (h : Reachable u) : P u := by
  induction h with
  | new hosts identity options _ => exact hnew _ hosts identity options
  | withIdentity identity _ ih => exact hidentity ih
  | withOptions options _ ih => exact hoptions ih
  | freeze _ ih => exact (keeps_freeze hfreeze).after ih
  | compileFor args ret _ ih => exact (keeps_compileFor hcompile).after ih
  | add text _ ih => exact (keeps_add fun _ _ => hcompile).after ih
  | compileForOperands args keywords _ ih =>
    exact (hP.keeps_compileForOperands args keywords).after ih
  | typeCall types _ ih => exact (hP.keeps_typeCall types).after ih
  | call args keywords _ ih => exact (hP.keeps_call args keywords).after ih
  | reduce a options _ ih => exact (hP.keeps_reduce a options).after ih

theorem coherent_new (d : Definition) (hosts : HostTable) (identity : Option Scalar)
    (options : Options) : Coherent (new d hosts identity options) := by
  constructor
  · rintro args l ⟨⟩
  · rintro outer ret inner a ⟨⟩

theorem Reachable.coherent (h : Reachable u) : Coherent u :=
  h.of_stable stable_coherent coherent_new (fun hu => ⟨hu.loop, hu.adapter⟩)
    (fun hu => ⟨hu.loop, hu.adapter⟩) Coherent.withLoop fun hu _ => ⟨hu.loop, hu.adapter⟩

/-- Every loop is compiled from the function's definition, for its host functions. -/
structure Compiled (u : Ufunc) : Prop where
  coherent : Coherent u
  loop : ∀ {args l}, u.table.get? args = some l →
    ∃ options ret, Loop.compile u.definition u.hosts options args ret = .ok l

theorem Compiled.withLoop {args : List DType} {ret : Option DType} {l : Loop} (hu : Compiled u)
    (hl : u.Compiles args ret l) : Compiled (u.withLoop l) := by
  refine ⟨hu.coherent.withLoop hl, fun {k m} hget => ?_⟩
  rw [hl.get?_withLoop] at hget
  split at hget
  next hk =>
    cases hget
    exact ⟨u.options, ret, hk ▸ hl.compiled⟩
  next => exact hu.loop hget

theorem Compiled.stable : Stable Compiled :=
  ⟨Compiled.coherent, Compiled.withLoop, fun hu hcoherent => ⟨hcoherent, hu.loop⟩⟩

theorem Reachable.compiled (h : Reachable u) : Compiled u := by
  apply h.of_stable Compiled.stable
  · intro d hosts identity options
    exact ⟨coherent_new d hosts identity options, nofun⟩
  · intro u identity hu
    exact ⟨⟨hu.coherent.loop, hu.coherent.adapter⟩, hu.loop⟩
  · intro u options hu
    exact ⟨⟨hu.coherent.loop, hu.coherent.adapter⟩, hu.loop⟩
  · intro u args ret l hu hl
    exact hu.withLoop hl
  · intro u hu _
    exact ⟨⟨hu.coherent.loop, hu.coherent.adapter⟩, hu.loop⟩

theorem reachable_rebuild {s : Snapshot} {hosts : HostTable} (h : rebuild s hosts = .ok u) :
    Reachable u := by
  have haddAll : Keeps Reachable (addAll s.signatures) := by
    unfold addAll
    induction s.signatures with
    | nil => exact .pure
    | cons signature signatures ih =>
      exact (Keeps.discard (.of_after fun _ hu => hu.compileFor _ _)).bind fun _ => ih
  have hfreeze : Keeps Reachable freeze := .of_after fun _ hu => hu.freeze
  unfold rebuild at h
  obtain ⟨d, hd, h⟩ := bind_eq_ok.1 h
  obtain ⟨⟨⟩, -, h⟩ := bind_eq_ok.1 h
  cases h
  have hnew : Reachable (new d hosts s.identity s.options) := .new hosts s.identity s.options hd
  refine Keeps.after (haddAll.bind fun _ => ?_) hnew
  split
  · exact hfreeze
  · exact .pure

end Pointwise.Ufunc

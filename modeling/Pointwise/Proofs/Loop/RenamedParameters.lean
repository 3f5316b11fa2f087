import Mathlib.Data.List.Nodup
import Pointwise.Proofs.Loop.Compile
import Pointwise.Proofs.Native.Lowering

/-!
# Names of parameters are not compiled

An expression with other names has the same types, values and code where the new names stand in the
places of the old ones.
-/

namespace Pointwise

open Pointwise.Expr

/-- The parameters that an expression mentions stand in the same places under other names. -/
structure Scope.Renamed (σ : String → String) (Γ Δ : Scope) (e : Expr) : Prop where
  name : Δ.name = Γ.name
  args : Δ.args = Γ.args
  hosts : Δ.hosts = Γ.hosts
  index : ∀ x, .var x ∈ e.nodes →
    ∃ i < Γ.args.length, Γ.index? x = some i ∧ Δ.index? (σ x) = some i

variable {σ : String → String} {Γ Δ : Scope} {e : Expr}

namespace Scope

namespace Renamed

theorem mirrored (h : Renamed σ Γ Δ e) : Mirrored σ Γ Δ e := by
  refine ⟨h.name, h.hosts, fun x hx => ?_⟩
  obtain ⟨i, hi, hindex, hindex'⟩ := h.index x hx
  simp [infer, paramType?, hindex, hindex', h.args, hi]

theorem infer_eq (h : Renamed σ Γ Δ e) : Δ.infer (renameVars σ e) = Γ.infer e := h.mirrored.infer_eq

theorem evalAs_eq {values : List Scalar} (hvalues : values.length = Γ.args.length)
    (h : Renamed σ Γ Δ e) (t : DType) :
    Δ.evalAs values (renameVars σ e) t = Γ.evalAs values e t := by
  refine h.mirrored.evalAs_eq (fun x hx => ?_) t
  obtain ⟨i, hi, hindex, hindex'⟩ := h.index x hx
  rw [← hvalues] at hi
  simp [eval, h.mirrored.typeOf_var hx, hindex, hindex', hi]

theorem lowerAs_eq (h : Renamed σ Γ Δ e) (t : DType) :
    Δ.lowerAs (renameVars σ e) t = Γ.lowerAs e t := by
  refine h.mirrored.lowerAs_eq (fun x hx => ?_) t
  obtain ⟨i, -, hindex, hindex'⟩ := h.index x hx
  exact ⟨hindex'.trans hindex.symm, fun hnone => by cases hindex.symm.trans hnone⟩

theorem usesBoxed_eq (h : Renamed σ Γ Δ e) : Δ.usesBoxed (renameVars σ e) = Γ.usesBoxed e := by
  rw [usesBoxed, usesBoxed, nodes_renameVars, List.any_map]
  congr 1
  funext n
  cases n <;> simp [callsBoxed, h.hosts]

end Renamed

end Scope

theorem Expr.calls_renameVars (e : Expr) : (renameVars σ e).calls = e.calls := by
  rw [calls, calls, nodes_renameVars, List.filterMap_map]
  congr 2
  funext n
  cases n <;> simp [callKey?]

/-! ## Definitions -/

theorem Definition.mem_outputs_of_body {d : Definition} (h : d.body = .ok e) :
    e ∈ d.outputs := by
  unfold body at h
  split at h
  next heq =>
    cases h
    simp [heq]
  next => cases h

/-- The same definition with other names of its parameters. -/
structure Definition.Renamed (σ : String → String) (d d' : Definition) : Prop where
  name : d'.name = d.name
  params : d'.params = d.params.map σ
  nodup : d'.params.Nodup
  outputs : d'.outputs = d.outputs.map (renameVars σ)
  mem_params : ∀ e ∈ d.outputs, ∀ x, .var x ∈ e.nodes → x ∈ d.params

namespace Definition.Renamed

variable {d d' : Definition} {hosts : HostTable} {args : List DType}

theorem nin_eq (h : Renamed σ d d') : d'.nin = d.nin := by
  rw [nin, nin, h.params, List.length_map]

theorem hostCalls_eq (h : Renamed σ d d') : d'.hostCalls = d.hostCalls := by
  simp only [hostCalls, h.outputs, List.flatMap_map, calls_renameVars]

theorem body_eq (h : Renamed σ d d') : d'.body = d.body.map (renameVars σ) := by
  rw [body, body, nout, nout, h.outputs, h.name]
  cases d.outputs with
  | nil => rfl
  | cons e es =>
    cases es with
    | nil => rfl
    | cons => simp

theorem exists_index (h : Renamed σ d d') {x : String} (hx : x ∈ d.params) :
    ∃ i < d.params.length, d.paramIndex? x = some i ∧ d'.paramIndex? (σ x) = some i := by
  have hfound : (d.params.findIdx? (· == x)).isSome = true := by
    simpa [List.findIdx?_isSome] using hx
  obtain ⟨i, hi⟩ := Option.isSome_iff_exists.1 hfound
  obtain ⟨hlt, heq, hbefore⟩ := List.findIdx?_eq_some_iff_getElem.1 hi
  have hinj (y : String) (hy : y ∈ d.params) : (σ y == σ x) = (y == x) := by
    rw [Bool.eq_iff_iff, beq_iff_eq, beq_iff_eq]
    exact ⟨List.inj_on_of_nodup_map (h.params ▸ h.nodup) hy hx, congrArg σ⟩
  refine ⟨i, hlt, hi, ?_⟩
  rw [paramIndex?, h.params, List.findIdx?_map, List.findIdx?_eq_some_iff_getElem]
  refine ⟨hlt, ?_, fun j hj => ?_⟩
  · rwa [Function.comp_apply, hinj _ (List.getElem_mem hlt)]
  · rw [Function.comp_apply, hinj _ (List.getElem_mem _)]
    exact hbefore j hj

theorem scope (h : Renamed σ d d') (hosts : HostTable) {e : Expr} (he : e ∈ d.outputs)
    (hargs : args.length = d.nin) :
    Scope.Renamed σ (d.scope hosts args) (d'.scope hosts args) e := by
  refine ⟨h.name, rfl, rfl, fun x hx => ?_⟩
  obtain ⟨i, hi, hindex⟩ := h.exists_index (h.mem_params e he x hx)
  exact ⟨i, hargs.symm ▸ hi, hindex⟩

theorem check_eq (h : Renamed σ d d') :
    d'.check hosts args = (d.check hosts args).map fun (body, t) => (renameVars σ body, t) := by
  by_cases hargs : args.length = d.nin
  · cases hbody : d.body with
    | error e => simp [check, h.nin_eq, h.body_eq, hargs, hbody]
    | ok body =>
      have hinfer := (h.scope hosts (mem_outputs_of_body hbody) hargs).infer_eq
      cases ht : (d.scope hosts args).infer body <;>
        simp [check, h.nin_eq, h.body_eq, hargs, hbody, hinfer, ht]
  · simp [check, h.nin_eq, h.name, hargs]

theorem call_eq (h : Renamed σ d d') (hargs : args.length = d.nin) (ret : DType)
    (values : List Scalar) :
    BoxedKernel.call ⟨d', hosts, args, ret⟩ values =
      BoxedKernel.call ⟨d, hosts, args, ret⟩ values := by
  by_cases hvalues : values.length = args.length
  · cases hbody : d.body with
    | error e => simp [BoxedKernel.call, h.body_eq, hvalues, hbody]
    | ok body =>
      have hlength : (List.zipWith Scalar.cast values args).length = args.length := by
        simp [hvalues]
      have heval := (h.scope hosts (mem_outputs_of_body hbody) hargs).evalAs_eq hlength
      simp [BoxedKernel.call, h.body_eq, hvalues, hbody, heval]
  · simp [BoxedKernel.call, h.name, hvalues]

end Definition.Renamed

/-! ## Loops -/

/-- Whether the same code runs, or kernels that compute the same. -/
def Entry.Alike : Entry → Entry → Prop
  | native code, native code' => code' = code
  | boxed kernel, boxed kernel' => ∀ values, kernel'.call values = kernel.call values
  | _, _ => False

namespace Loop

/-- Loops that nobody can tell apart. -/
structure Alike (l l' : Loop) : Prop where
  args : l'.args = l.args
  ret : l'.ret = l.ret
  symbol : l'.symbol = l.symbol
  imports : l'.imports = l.imports
  entry : l.entry.Alike l'.entry

theorem Alike.invoke_eq {l l' : Loop} (h : l.Alike l') (values : List Scalar) :
    l'.invoke values = l.invoke values := by
  have hentry := h.entry
  unfold invoke
  rw [h.args, h.ret, h.symbol]
  cases hl : l.entry <;> cases hl' : l'.entry <;> rw [hl, hl'] at hentry
  · obtain rfl := hentry
    rfl
  · cases hentry
  · cases hentry
  · simp only [hentry values]

variable {d d' : Definition}

/-- A definition with other names of its parameters fails to compile alike, or compiles alike. -/
theorem compile_renamed (h : d.Renamed σ d') (hosts : HostTable) (options : Options)
    (args : List DType) (ret : Option DType) :
    (∃ e, compile d hosts options args ret = .error e ∧
        compile d' hosts options args ret = .error e) ∨
      ∃ l l', compile d hosts options args ret = .ok l ∧
        compile d' hosts options args ret = .ok l' ∧ l.Alike l' := by
  unfold compile
  rw [h.check_eq, h.hostCalls_eq, h.name]
  by_cases hmodes : (options.nativeOnly && options.boxedOnly) = true
  · exact .inl ⟨_, by simp only [if_pos hmodes]; rfl, by simp only [if_pos hmodes]; rfl⟩
  simp only [if_neg hmodes]
  cases hcheck : d.check hosts args with
  | error e => exact .inl ⟨e, rfl, rfl⟩
  | ok checked =>
  obtain ⟨body, t⟩ := checked
  obtain ⟨hargs, hbody, -⟩ := Definition.check_eq_ok.1 hcheck
  have hscope := h.scope hosts (Definition.mem_outputs_of_body hbody) hargs
  simp only [map_ok, pure_eq_ok, ok_bind, hscope.usesBoxed_eq, hscope.lowerAs_eq]
  split
  · split
    · exact .inl ⟨_, rfl, rfl⟩
    · exact .inr ⟨_, _, rfl, rfl, rfl, rfl, rfl, rfl, h.call_eq hargs _⟩
  · cases hcode : (d.scope hosts args).lowerAs body (ret.getD t.dtype) with
    | error e => exact .inl ⟨e, rfl, rfl⟩
    | ok code => exact .inr ⟨_, _, rfl, rfl, rfl, rfl, rfl, rfl, rfl⟩

end Loop

end Pointwise

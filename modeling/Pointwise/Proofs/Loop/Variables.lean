import Pointwise.Boxed
import Pointwise.Proofs.Definition.RenamedTree
import Pointwise.Proofs.Typing

/-!
# What variables stand for

Types and values of an expression depend on nothing else in a scope than what is found there under
the names in the expression, whatever these names are.
-/

namespace Pointwise

open Pointwise.Expr

variable {σ : String → String} {Γ Δ : Scope} {e : Expr} {values values' : List Scalar}

/-- The names in an expression have the same types in one scope as other names in another. -/
structure Scope.Mirrored (σ : String → String) (Γ Δ : Scope) (e : Expr) : Prop where
  name : Δ.name = Γ.name
  hosts : Δ.hosts = Γ.hosts
  types : ∀ x, .var x ∈ e.nodes → Δ.infer (.var (σ x)) = Γ.infer (.var x)

@[simp] theorem Expr.literal?_renameVars (e : Expr) :
    (renameVars σ e).literal? = e.literal? := by
  cases e <;> rfl

namespace Scope

namespace Mirrored

theorem part {p : Expr} (h : Mirrored σ Γ Δ e) (hp : p ∈ e.parts) : Mirrored σ Γ Δ p :=
  ⟨h.name, h.hosts, fun x hx => h.types x (mem_nodes_of_part hp hx)⟩

theorem typeOf_var (h : Mirrored σ Γ Δ e) {x : String} (hx : .var x ∈ e.nodes) :
    Δ.typeOf (.var (σ x)) = Γ.typeOf (.var x) := by
  rw [typeOf, typeOf, h.types x hx]

theorem host_eq (h : Mirrored σ Γ Δ e) (name : String) (n : Nat) :
    Δ.host name n = Γ.host name n := by
  rw [host, host, h.hosts]

theorem inferAll_map {es : List Expr} (h : ∀ e ∈ es, Δ.infer (renameVars σ e) = Γ.infer e) :
    Δ.inferAll (es.map (renameVars σ)) = Γ.inferAll es := by
  induction es with
  | nil => rfl
  | cons e es ih =>
    rw [List.forall_mem_cons] at h
    rw [List.map_cons, inferAll, inferAll, h.1, ih h.2]

theorem infer_eq (h : Mirrored σ Γ Δ e) : Δ.infer (renameVars σ e) = Γ.infer e := by
  induction e using Expr.induct with
  | int | float | bool => rfl
  | var x => exact h.types x (mem_nodes_self _)
  | neg x ih =>
    simp only [renameVars_neg, infer, ih (h.part (.head _)), h.name]
  | not x ih =>
    simp only [renameVars_not, infer, ih (h.part (.head _))]
  | arith op a b iha ihb | compare c a b iha ihb | and a b iha ihb | or a b iha ihb =>
    have ha := iha (h.part (.head _))
    have hb := ihb (h.part (.tail _ (.head _)))
    simp only [renameVars_arith, renameVars_compare, renameVars_and,
      renameVars_or, infer, ha, hb]
  | cond c a b ihc iha ihb =>
    have hc := ihc (h.part (.head _))
    have ha := iha (h.part (.tail _ (.head _)))
    have hb := ihb (h.part (.tail _ (.tail _ (.head _))))
    simp only [renameVars_cond, infer, hc, ha, hb]
  | call name args ih =>
    have hargs := inferAll_map fun a ha => ih a ha (h.part ha)
    simp only [renameVars_call, infer, hargs, List.length_map, h.host_eq]

theorem typeOf_eq (h : Mirrored σ Γ Δ e) : Δ.typeOf (renameVars σ e) = Γ.typeOf e := by
  rw [typeOf, typeOf, h.infer_eq]

theorem commonType_eq {a b : Expr} (ha : Mirrored σ Γ Δ a) (hb : Mirrored σ Γ Δ b) :
    Δ.commonType (renameVars σ a) (renameVars σ b) = Γ.commonType a b := by
  rw [commonType, commonType, ha.typeOf_eq, hb.typeOf_eq]

/-! ## Boxed evaluation -/

theorem asType_eq (e : Expr) (t : DType) (r : Except Error Scalar) :
    asType (renameVars σ e) t r = asType e t r := by
  rw [asType, asType, literal?_renameVars]

theorem asTruth_eq (e : Expr) (r : Except Error Scalar) :
    asTruth (renameVars σ e) r = asTruth e r := by
  rw [asTruth, asTruth, asType_eq]

theorem evalAll_map {t? : Option DType} {es : List Expr}
    (h : ∀ e ∈ es, Δ.eval values' (renameVars σ e) = Γ.eval values e) :
    Δ.evalAll values' t? (es.map (renameVars σ)) = Γ.evalAll values t? es := by
  induction es with
  | nil => rfl
  | cons e es ih =>
    rw [List.forall_mem_cons] at h
    simp only [List.map_cons, evalAll, asType_eq, h.1, ih h.2]

theorem eval_eq (h : Mirrored σ Γ Δ e)
    (hvalues : ∀ x, .var x ∈ e.nodes → Δ.eval values' (.var (σ x)) = Γ.eval values (.var x)) :
    Δ.eval values' (renameVars σ e) = Γ.eval values e := by
  induction e using Expr.induct with
  | int | float | bool => rfl
  | var x => exact hvalues x (mem_nodes_self _)
  | neg x ih =>
    have ht := h.typeOf_eq
    have hx := ih (h.part (.head _)) fun y hy => hvalues y (mem_nodes_of_part (.head _) hy)
    simp only [renameVars_neg] at ht
    simp only [renameVars_neg, eval, ht, asType_eq, hx]
  | not x ih =>
    have ht := h.typeOf_eq
    have hx := ih (h.part (.head _)) fun y hy => hvalues y (mem_nodes_of_part (.head _) hy)
    simp only [renameVars_not] at ht
    simp only [renameVars_not, eval, ht, asTruth_eq, hx]
  | arith op a b iha ihb | compare c a b iha ihb | and a b iha ihb | or a b iha ihb =>
    have ht := h.typeOf_eq
    have hcommon := commonType_eq (h.part (.head _)) (h.part (.tail _ (.head _)))
    have ha := iha (h.part (.head _)) fun y hy => hvalues y (mem_nodes_of_part (.head _) hy)
    have hb := ihb (h.part (.tail _ (.head _))) fun y hy =>
      hvalues y (mem_nodes_of_part (.tail _ (.head _)) hy)
    simp only [renameVars_arith, renameVars_compare, renameVars_and,
      renameVars_or] at ht
    simp only [renameVars_arith, renameVars_compare, renameVars_and,
      renameVars_or, eval, ht, hcommon, asType_eq, asTruth_eq, ha, hb]
  | cond c a b ihc iha ihb =>
    have ht := h.typeOf_eq
    have hc := ihc (h.part (.head _)) fun y hy => hvalues y (mem_nodes_of_part (.head _) hy)
    have ha := iha (h.part (.tail _ (.head _))) fun y hy =>
      hvalues y (mem_nodes_of_part (.tail _ (.head _)) hy)
    have hb := ihb (h.part (.tail _ (.tail _ (.head _)))) fun y hy =>
      hvalues y (mem_nodes_of_part (.tail _ (.tail _ (.head _))) hy)
    simp only [renameVars_cond] at ht
    simp only [renameVars_cond, eval, ht, asType_eq, asTruth_eq, hc, ha, hb]
  | call name args ih =>
    have ht := h.typeOf_eq
    have hargs (t? : Option DType) :
        Δ.evalAll values' t? (args.map (renameVars σ)) = Γ.evalAll values t? args :=
      evalAll_map fun a ha => ih a ha (h.part ha) fun y hy => hvalues y (mem_nodes_of_part ha hy)
    simp only [renameVars_call] at ht
    simp only [renameVars_call, eval, ht, hargs, List.length_map, h.host_eq]

theorem evalAs_eq (h : Mirrored σ Γ Δ e)
    (hvalues : ∀ x, .var x ∈ e.nodes → Δ.eval values' (.var (σ x)) = Γ.eval values (.var x))
    (t : DType) : Δ.evalAs values' (renameVars σ e) t = Γ.evalAs values e t := by
  rw [evalAs, evalAs, asType_eq, h.eval_eq hvalues]

end Mirrored

end Scope

/-! ## Unknown names -/

/-- Whether an error says that a name is unknown. -/
def Error.isUnknownIdent : Error → Bool
  | unknownIdent _ => true
  | _ => false

/-- An error for want of a name can only be for one in the expression that is indeed unknown. -/
def Expr.Misses (e : Expr) (unknown : String → Prop) (err : Error) : Prop :=
  ∀ x, err = .unknownIdent x → .var x ∈ e.nodes ∧ unknown x

namespace Expr.Misses

variable {unknown : String → Prop} {err : Error}

theorem of_part {p : Expr} (hp : p ∈ e.parts) (h : p.Misses unknown err) : e.Misses unknown err :=
  fun x hx => ⟨mem_nodes_of_part hp (h x hx).1, (h x hx).2⟩

theorem of_not (h : err.isUnknownIdent = false) : e.Misses unknown err := by
  rintro x rfl
  cases h

theorem isUnknownIdent_eq_false (h : e.Misses unknown err)
    (hknown : ∀ x, .var x ∈ e.nodes → ¬ unknown x) : err.isUnknownIdent = false := by
  cases err with
  | unknownIdent x =>
    obtain ⟨hx, hunknown⟩ := h x rfl
    exact absurd hunknown (hknown x hx)
  | _ => rfl

theorem of_ends {α : Type} {r : Except Error α} {good : α → Prop}
    (h : Ends r good (·.isUnknownIdent = false)) : Ends r good (e.Misses unknown) :=
  h.mono (fun _ => id) fun _ => of_not

theorem var {x : String} (h : unknown x) : (Expr.var x).Misses unknown (.unknownIdent x) := by
  rintro y hy
  cases hy
  exact ⟨mem_nodes_self _, h⟩

end Expr.Misses

namespace Scope

theorem host_known (name : String) (n : Nat) :
    Ends (Γ.host name n) (fun _ => True) (·.isUnknownIdent = false) :=
  (host_ends name n).mono (fun _ _ => trivial) fun _ herr => by rw [herr]; rfl

theorem inferAll_ends {es : List Expr} {bad : Error → Prop}
    (h : ∀ e ∈ es, Ends (Γ.infer e) (fun _ => True) bad) :
    Ends (Γ.inferAll es) (fun _ => True) bad := by
  induction es with
  | nil => exact .ok trivial
  | cons e es ih =>
    rw [List.forall_mem_cons] at h
    rw [inferAll]
    exact h.1.bind fun _ _ => ih h.2

theorem infer_misses (e : Expr) :
    Ends (Γ.infer e) (fun _ => True) (e.Misses fun x => Γ.paramType? x = none) := by
  induction e using Expr.induct_parts with
  | step e ih =>
    have part (p : Expr) (hp : p ∈ e.parts) :
        Ends (Γ.infer p) (fun _ => True) (e.Misses fun x => Γ.paramType? x = none) :=
      (ih p hp).mono (fun _ => id) fun _ => Expr.Misses.of_part hp
    cases e with
    | int | float | bool => exact .ok trivial
    | var x =>
      rw [infer]
      cases hx : Γ.paramType? x with
      | none => exact .error (.var hx)
      | some t => exact .ok trivial
    | neg x =>
      rw [infer]
      refine (part x (.head _)).bind fun t _ => ?_
      split
      · exact .error (.of_not rfl)
      · exact .ok trivial
    | not x =>
      rw [infer]
      exact (part x (.head _)).bind fun _ _ => .ok trivial
    | arith _ a b | compare _ a b | and a b | or a b =>
      rw [infer]
      exact (part a (.head _)).bind fun _ _ =>
        (part b (.tail _ (.head _))).bind fun _ _ => .ok trivial
    | cond c a b =>
      rw [infer]
      exact (part c (.head _)).bind fun _ _ => (part a (.tail _ (.head _))).bind fun _ _ =>
        (part b (.tail _ (.tail _ (.head _)))).bind fun _ _ => .ok trivial
    | call name args =>
      rw [infer]
      refine (inferAll_ends part).bind fun _ _ => ?_
      exact (Expr.Misses.of_ends (host_known name args.length)).bind fun _ _ => .ok trivial

end Scope

end Pointwise

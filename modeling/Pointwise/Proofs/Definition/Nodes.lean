import Pointwise.Definition.Expr

/-!
# Nodes of expressions

Induction over expressions, and what lies inside what.
-/

namespace Pointwise.Expr

@[elab_as_elim]
theorem induct {motive : Expr → Prop}
    (int : ∀ n, motive (.int n)) (float : ∀ p, motive (.float p)) (bool : ∀ b, motive (.bool b))
    (var : ∀ x, motive (.var x)) (neg : ∀ x, motive x → motive (.neg x))
    (not : ∀ x, motive x → motive (.not x))
    (arith : ∀ op a b, motive a → motive b → motive (.arith op a b))
    (compare : ∀ c a b, motive a → motive b → motive (.compare c a b))
    (and : ∀ a b, motive a → motive b → motive (.and a b))
    (or : ∀ a b, motive a → motive b → motive (.or a b))
    (cond : ∀ c a b, motive c → motive a → motive b → motive (.cond c a b))
    (call : ∀ name args, (∀ a ∈ args, motive a) → motive (.call name args)) (e : Expr) :
    motive e :=
  @Expr.rec motive (fun es => ∀ e ∈ es, motive e) int float bool var neg not arith compare and or
    cond call (by simp) (fun e es he hes => by simpa using ⟨he, hes⟩) e

theorem mem_nodes_self (e : Expr) : e ∈ e.nodes := by
  cases e <;> simp [nodes]

theorem nodesOfAll_eq_flatMap (es : List Expr) : nodesOfAll es = es.flatMap nodes := by
  induction es with
  | nil => rfl
  | cons e es ih => rw [nodesOfAll, ih, List.flatMap_cons]

theorem mem_nodesOfAll {n : Expr} {es : List Expr} :
    n ∈ nodesOfAll es ↔ ∃ e ∈ es, n ∈ e.nodes := by
  rw [nodesOfAll_eq_flatMap, List.mem_flatMap]

/-- The expressions that an expression is made of. -/
def parts : Expr → List Expr
  | neg x | not x => [x]
  | arith _ a b | compare _ a b | and a b | or a b => [a, b]
  | cond c a b => [c, a, b]
  | call _ args => args
  | _ => []

theorem induct_parts {motive : Expr → Prop} (step : ∀ e, (∀ m ∈ e.parts, motive m) → motive e)
    (e : Expr) : motive e := by
  induction e using Expr.induct with
  | int | float | bool | var => exact step _ (by simp [parts])
  | neg x h | not x h => exact step _ (by simpa [parts] using h)
  | arith _ a b ha hb | compare _ a b ha hb | and a b ha hb | or a b ha hb =>
    exact step _ (by simpa [parts] using ⟨ha, hb⟩)
  | cond c a b hc ha hb => exact step _ (by simpa [parts] using ⟨hc, ha, hb⟩)
  | call name args h => exact step _ h

theorem mem_nodes {n e : Expr} : n ∈ e.nodes ↔ n = e ∨ ∃ m ∈ e.parts, n ∈ m.nodes := by
  cases e <;> simp [nodes, parts, mem_nodesOfAll]

theorem mem_nodes_trans {m n e : Expr} (hm : m ∈ n.nodes) (hn : n ∈ e.nodes) : m ∈ e.nodes := by
  induction e using induct_parts with
  | step e ih =>
    rcases mem_nodes.1 hn with rfl | ⟨p, hp, hn⟩
    · exact hm
    · exact mem_nodes.2 (.inr ⟨p, hp, ih p hp hn⟩)

theorem mem_nodes_of_part {n p e : Expr} (hp : p ∈ e.parts) (hn : n ∈ p.nodes) : n ∈ e.nodes :=
  mem_nodes.2 (.inr ⟨p, hp, hn⟩)

end Pointwise.Expr

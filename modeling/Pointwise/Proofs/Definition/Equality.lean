import Pointwise.Definition
import Pointwise.Proofs.Definition.Nodes
import Pointwise.Proofs.Outcome

/-!
# Equality of definitions

Expressions are compared node by node, so that what is read from a text can be computed.
-/

namespace Pointwise

namespace Expr

mutual

def same : Expr → Expr → Bool
  | int m, int n => m == n
  | float p, float q => p == q
  | bool a, bool b => a == b
  | var x, var y => x == y
  | neg x, neg y => same x y
  | not x, not y => same x y
  | arith op a b, arith op' a' b' => op == op' && same a a' && same b b'
  | compare c a b, compare c' a' b' => c == c' && same a a' && same b b'
  | and a b, and a' b' => same a a' && same b b'
  | or a b, or a' b' => same a a' && same b b'
  | cond c a b, cond c' a' b' => same c c' && same a a' && same b b'
  | call name args, call name' args' => name == name' && sameAll args args'
  | _, _ => false

def sameAll : List Expr → List Expr → Bool
  | [], [] => true
  | e :: es, e' :: es' => same e e' && sameAll es es'
  | _, _ => false

end

theorem sameAll_iff {es es' : List Expr} (h : ∀ e ∈ es, ∀ e', same e e' = true ↔ e = e') :
    sameAll es es' = true ↔ es = es' := by
  induction es generalizing es' with
  | nil => cases es' <;> simp [sameAll]
  | cons e es ih =>
    rw [List.forall_mem_cons] at h
    cases es' with
    | nil => simp [sameAll]
    | cons e' es' => simp [sameAll, h.1, ih h.2]

theorem same_iff {e e' : Expr} : same e e' = true ↔ e = e' := by
  induction e using Expr.induct generalizing e' with
  | call name args ih =>
    cases e' <;> simp [same, sameAll_iff fun a ha _ => ih a ha]
  | _ => cases e' <;> simp_all [same, and_assoc]

instance : DecidableEq Expr := fun _ _ => decidable_of_iff _ same_iff

end Expr

deriving instance DecidableEq for Parser.Parsed, Definition

end Pointwise

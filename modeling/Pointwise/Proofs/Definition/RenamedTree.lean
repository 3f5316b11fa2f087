import Mathlib.Data.List.Basic
import Pointwise.Proofs.Definition.Nodes

/-!
# Expressions with other names

The words `true` and `false` are truth values wherever they are not called, so that a name that
becomes one of them, or was one of them, changes what is read.
-/

namespace Pointwise.Expr

/-- What a name is that is not called. -/
def named (x : String) : Expr :=
  if x = "true" then .bool true else if x = "false" then .bool false else .var x

/-- The name that is read as a truth value. -/
def word (b : Bool) : String := if b then "true" else "false"

section

variable (f : String → Expr) (g : Bool → Expr)

mutual

/-- The expression with others in place of its variables and its truth values. -/
def subst : Expr → Expr
  | int n => int n
  | float p => float p
  | bool b => g b
  | var x => f x
  | neg x => neg (subst x)
  | not x => not (subst x)
  | arith op a b => arith op (subst a) (subst b)
  | compare c a b => compare c (subst a) (subst b)
  | and a b => and (subst a) (subst b)
  | or a b => or (subst a) (subst b)
  | cond c a b => cond (subst c) (subst a) (subst b)
  | call name args => call name (substAll args)

def substAll : List Expr → List Expr
  | [] => []
  | e :: es => subst e :: substAll es

end

@[simp] theorem substAll_eq_map (es : List Expr) : substAll f g es = es.map (subst f g) := by
  induction es with
  | nil => rfl
  | cons e es ih => rw [substAll, ih, List.map_cons]

end

/-- The expression with other names of its variables. -/
def renameVars (σ : String → String) : Expr → Expr := subst (fun x => .var (σ x)) .bool

/-- What is read where names are replaced that are not called. -/
def reword (σ : String → String) : Expr → Expr :=
  subst (fun x => named (σ x)) fun b => named (σ (word b))

/-- Whether variables stay variables under other names, and truth values keep theirs. -/
def KeepsWords (σ : String → String) (e : Expr) : Prop :=
  (∀ x, .var x ∈ e.nodes → σ x ≠ "true" ∧ σ x ≠ "false") ∧
    ∀ b, .bool b ∈ e.nodes → σ (word b) = word b

section

variable (σ : String → String)

@[simp] theorem renameVars_int (n : Int) : renameVars σ (.int n) = .int n := rfl

@[simp] theorem renameVars_float (p : BitVec 64) : renameVars σ (.float p) = .float p := rfl

@[simp] theorem renameVars_bool (b : Bool) : renameVars σ (.bool b) = .bool b := rfl

@[simp] theorem renameVars_var (x : String) : renameVars σ (.var x) = .var (σ x) := rfl

@[simp] theorem renameVars_neg (x : Expr) :
    renameVars σ (.neg x) = .neg (renameVars σ x) := rfl

@[simp] theorem renameVars_not (x : Expr) :
    renameVars σ (.not x) = .not (renameVars σ x) := rfl

@[simp] theorem renameVars_arith (op : ArithOp) (a b : Expr) :
    renameVars σ (.arith op a b) = .arith op (renameVars σ a) (renameVars σ b) := rfl

@[simp] theorem renameVars_compare (c : Binary.Comparison) (a b : Expr) :
    renameVars σ (.compare c a b) = .compare c (renameVars σ a) (renameVars σ b) := rfl

@[simp] theorem renameVars_and (a b : Expr) :
    renameVars σ (.and a b) = .and (renameVars σ a) (renameVars σ b) := rfl

@[simp] theorem renameVars_or (a b : Expr) :
    renameVars σ (.or a b) = .or (renameVars σ a) (renameVars σ b) := rfl

@[simp] theorem renameVars_cond (c a b : Expr) :
    renameVars σ (.cond c a b) = .cond (renameVars σ c) (renameVars σ a) (renameVars σ b) := rfl

@[simp] theorem renameVars_call (name : String) (args : List Expr) :
    renameVars σ (.call name args) = .call name (args.map (renameVars σ)) :=
  congrArg _ (substAll_eq_map _ _ args)

end

variable {σ : String → String} {f f' : String → Expr} {g g' : Bool → Expr}

/-! ## Substitution -/

theorem subst_eq_iff {e : Expr} : subst f g e = subst f' g' e ↔
    ∀ n ∈ e.nodes, (∀ x, n = .var x → f x = f' x) ∧ ∀ b, n = .bool b → g b = g' b := by
  induction e using Expr.induct with
  | int | float => simp [subst, nodes]
  | bool b => simp only [subst, nodes, List.forall_mem_singleton]; simp
  | var x => simp [subst, nodes]
  | neg x ih | not x ih => simp [subst, nodes, ih]
  | arith op a b iha ihb | compare c a b iha ihb | and a b iha ihb | or a b iha ihb =>
    simp only [subst, nodes, List.forall_mem_cons, List.forall_mem_append, ← iha, ← ihb]
    simp
  | cond c a b ihc iha ihb =>
    simp only [subst, nodes, List.forall_mem_cons, List.forall_mem_append, ← ihc, ← iha, ← ihb]
    simp [and_assoc]
  | call name args ih =>
    simp only [subst, nodes, List.forall_mem_cons, mem_nodesOfAll, substAll_eq_map, call.injEq,
      List.map_inj_left, true_and, reduceCtorEq, false_implies, implies_true]
    constructor
    · rintro h n ⟨a, ha, hn⟩
      exact (ih a ha).1 (h a ha) n hn
    · intro h a ha
      exact (ih a ha).2 fun n hn => h n ⟨a, ha, hn⟩

theorem subst_cases (f : String → Expr) (g : Bool → Expr) (e : Expr) :
    (∃ x, e = .var x) ∨ (∃ b, e = .bool b) ∨
      (∀ y, subst f g e ≠ .var y) ∧ (subst f g e).parts = e.parts.map (subst f g) := by
  cases e <;> simp [subst, parts]

theorem exists_of_mem_nodes_subst {e : Expr} {y : String} (h : .var y ∈ (subst f g e).nodes) :
    (∃ x, .var x ∈ e.nodes ∧ .var y ∈ (f x).nodes) ∨
      ∃ b, .bool b ∈ e.nodes ∧ .var y ∈ (g b).nodes := by
  -- Of the two, only their place inside the expression is of interest on the way up.
  have up {m e : Expr} (hm : m ∈ e.parts) :
      ((∃ x, .var x ∈ m.nodes ∧ .var y ∈ (f x).nodes) ∨
        ∃ b, .bool b ∈ m.nodes ∧ .var y ∈ (g b).nodes) →
      (∃ x, .var x ∈ e.nodes ∧ .var y ∈ (f x).nodes) ∨
        ∃ b, .bool b ∈ e.nodes ∧ .var y ∈ (g b).nodes := by
    rintro (⟨x, hx, hy⟩ | ⟨b, hb, hy⟩)
    · exact .inl ⟨x, mem_nodes_of_part hm hx, hy⟩
    · exact .inr ⟨b, mem_nodes_of_part hm hb, hy⟩
  induction e using Expr.induct_parts with
  | step e ih =>
    rcases subst_cases f g e with ⟨x, rfl⟩ | ⟨b, rfl⟩ | ⟨hvar, hparts⟩
    · exact .inl ⟨x, mem_nodes_self _, h⟩
    · exact .inr ⟨b, mem_nodes_self _, h⟩
    · rcases mem_nodes.1 h with heq | ⟨p, hp, hy⟩
      · exact absurd heq.symm (hvar y)
      · rw [hparts] at hp
        obtain ⟨m, hm, rfl⟩ := List.mem_map.1 hp
        exact up hm (ih m hm hy)

@[simp] theorem nodes_renameVars (σ : String → String) (e : Expr) :
    (renameVars σ e).nodes = e.nodes.map (renameVars σ) := by
  induction e using Expr.induct with
  | int | float | bool | var => rfl
  | neg x ih | not x ih => simp [nodes, ih]
  | arith op a b iha ihb | compare c a b iha ihb | and a b iha ihb | or a b iha ihb =>
    simp [nodes, iha, ihb]
  | cond c a b ihc iha ihb => simp [nodes, ihc, iha, ihb]
  | call name args ih =>
    simp only [renameVars_call, nodes, nodesOfAll_eq_flatMap, List.map_cons, List.map_flatMap,
      List.flatMap_map]
    exact congrArg (_ :: ·) (List.flatMap_congr ih)

/-! ## Names and words -/

theorem named_cases (x : String) :
    (∃ b, x = word b ∧ named x = .bool b) ∨ (x ≠ "true" ∧ x ≠ "false" ∧ named x = .var x) := by
  unfold named
  split
  next h => exact .inl ⟨true, h, rfl⟩
  next htrue =>
    split
    next h => exact .inl ⟨false, h, rfl⟩
    next hfalse => exact .inr ⟨htrue, hfalse, rfl⟩

theorem mem_nodes_named {x y : String} :
    .var y ∈ (named x).nodes ↔ y = x ∧ ∀ b, x ≠ word b := by
  unfold named word
  split
  next h => simp [nodes, h]
  next htrue => split <;> simp_all [nodes]

theorem named_eq_var_iff {x : String} : named x = .var x ↔ x ≠ "true" ∧ x ≠ "false" := by
  unfold named
  split
  next h => simp [h]
  next htrue => split <;> simp_all

theorem named_eq_bool_iff {x : String} {b : Bool} : named x = .bool b ↔ x = word b := by
  unfold named word
  split
  next h => cases b <;> simp [h]
  next htrue => split <;> cases b <;> simp_all

/-- What is read under other names is the expression with other names, exactly if no word becomes a
variable or another word, and no variable a word. -/
theorem reword_eq_renameVars_iff {e : Expr} : reword σ e = renameVars σ e ↔ KeepsWords σ e := by
  rw [reword, renameVars, subst_eq_iff]
  simp only [named_eq_var_iff, named_eq_bool_iff, KeepsWords]
  constructor
  · intro h
    exact ⟨fun x hx => (h _ hx).1 x rfl, fun b hb => (h _ hb).2 b rfl⟩
  · rintro ⟨hvar, hbool⟩ n hn
    constructor
    · rintro x rfl
      exact hvar x hn
    · rintro b rfl
      exact hbool b hn

end Pointwise.Expr

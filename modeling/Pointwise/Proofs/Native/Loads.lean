import Pointwise.Proofs.Native.Lowering

/-!
# What machine code loads

Code reads only the slots that its instructions name, and the code of an expression names only slots
of the parameters in the expression. For want of a slot an expression is not lowered.
-/

namespace Pointwise

namespace Native

mutual

/-- The slots that an instruction may load. -/
def Instr.loads : Instr → List Nat
  | .load i _ => [i]
  | .branch onTrue onFalse => loads onTrue ++ loads onFalse
  | _ => []

/-- The slots that a piece of code may load. -/
def loads : Code → List Nat
  | [] => []
  | i :: code => i.loads ++ loads code

end

theorem loads_append (k l : Code) : loads (k ++ l) = loads k ++ loads l := by
  induction k with
  | nil => rfl
  | cons i k ih => rw [List.cons_append, loads, ih, loads, List.append_assoc]

mutual

theorem exec_congr {slots slots' : List (BitVec 64)} (i : Instr) (s : Stack)
    (h : ∀ j ∈ i.loads, slots.getD j 0 = slots'.getD j 0) : exec slots s i = exec slots' s i := by
  cases i with
  | load j lane => rw [exec, exec, h j (.head _)]
  | branch onTrue onFalse =>
    rw [Instr.loads, List.forall_mem_append] at h
    rw [exec, exec, run_congr onTrue _ h.1, run_congr onFalse _ h.2]
  | const | unary | binary | call => rfl

theorem run_congr {slots slots' : List (BitVec 64)} (code : Code) (s : Stack)
    (h : ∀ j ∈ loads code, slots.getD j 0 = slots'.getD j 0) :
    run slots s code = run slots' s code := by
  cases code with
  | nil => rfl
  | cons i code =>
    rw [loads, List.forall_mem_append] at h
    rw [run, run, exec_congr i s h.1, run_congr code _ h.2]

end

theorem loads_castCode (s t : DType) : loads (castCode s t) = [] := by
  have hclamp : loads (clampCode t) = [] := by
    unfold clampCode
    split <;> rfl
  unfold castCode
  split
  · rfl
  split
  case h_4 =>
    split
    · rfl
    · rw [loads_append, loads, hclamp]
      rfl
  all_goals repeat' split
  all_goals rfl

end Native

namespace Scope

open Native

variable {Γ : Scope} {e p : Expr} {k l : Code}

/-- Whether code loads nothing but parameters in an expression. -/
def LoadsOnly (Γ : Scope) (e : Expr) (k : Code) : Prop :=
  ∀ i ∈ loads k, ∃ x, .var x ∈ e.nodes ∧ Γ.index? x = some i

namespace LoadsOnly

theorem of_loads_eq_nil (h : loads k = []) : Γ.LoadsOnly e k := by
  intro i hi
  rw [h] at hi
  cases hi

theorem of_part (hp : p ∈ e.parts) (h : Γ.LoadsOnly p k) : Γ.LoadsOnly e k := by
  intro i hi
  obtain ⟨x, hx, hindex⟩ := h i hi
  exact ⟨x, Expr.mem_nodes_of_part hp hx, hindex⟩

theorem append (hk : Γ.LoadsOnly e k) (hl : Γ.LoadsOnly e l) : Γ.LoadsOnly e (k ++ l) := by
  rw [LoadsOnly, loads_append, List.forall_mem_append]
  exact ⟨hk, hl⟩

theorem branch (hk : Γ.LoadsOnly e k) (hl : Γ.LoadsOnly e l) : Γ.LoadsOnly e [.branch k l] := by
  rw [LoadsOnly, loads, loads, List.append_nil, Instr.loads, List.forall_mem_append]
  exact ⟨hk, hl⟩

end LoadsOnly

/-! ## Lowering -/

theorem loads_arithInstr {name : String} {op : ArithOp} {t : DType} {i : Instr}
    (h : arithInstr name op t = .ok i) : i.loads = [] := by
  unfold arithInstr at h
  split at h <;> cases h <;> rfl

theorem loads_negInstr {t : DType} {i : Instr} (h : negInstr t = .ok i) : i.loads = [] := by
  unfold negInstr at h
  split at h <;> cases h <;> rfl

theorem loads_compareInstr (c : Binary.Comparison) (t : DType) : (compareInstr c t).loads = [] := by
  unfold compareInstr
  split <;> rfl

theorem LoadsOnly.instr {i : Instr} (h : i.loads = []) : Γ.LoadsOnly e [i] :=
  .of_loads_eq_nil (by rw [loads, loads, h, List.append_nil])

theorem loadsOnly_codeAs {u : DType} (h : ∀ k, Γ.lower p = .ok k → Γ.LoadsOnly e k)
    (hk : Γ.codeAs p u (Γ.lower p) = .ok k) : Γ.LoadsOnly e k := by
  rcases codeAs_iff.1 hk with ⟨s, -, rfl⟩ | ⟨-, t, l, -, hl, rfl⟩
  · exact .of_loads_eq_nil rfl
  · exact (h l hl).append (.of_loads_eq_nil (loads_castCode _ _))

theorem loadsOnly_lowerAll {es : List Expr}
    (h : ∀ p ∈ es, ∀ k, Γ.codeAs p .float64 (Γ.lower p) = .ok k → Γ.LoadsOnly e k)
    (hk : Γ.lowerAll es = .ok k) : Γ.LoadsOnly e k := by
  induction es generalizing k with
  | nil =>
    cases hk
    exact .of_loads_eq_nil rfl
  | cons p es ih =>
    rw [List.forall_mem_cons] at h
    obtain ⟨l, m, hl, hm, rfl⟩ := lowerAll_cons.1 hk
    exact (h.1 l hl).append (ih h.2 hm)

theorem loadsOnly_lower (hk : Γ.lower e = .ok k) : Γ.LoadsOnly e k := by
  induction e using Expr.induct_parts generalizing k with
  | step e ih =>
    have part (p : Expr) (hp : p ∈ e.parts) {u : DType} {k : Code}
        (hk : Γ.codeAs p u (Γ.lower p) = .ok k) : Γ.LoadsOnly e k :=
      loadsOnly_codeAs (fun k hk => (ih p hp hk).of_part hp) hk
    cases e with
    | int | float | bool =>
      cases (lower_of_literal? rfl).symm.trans hk
      exact .of_loads_eq_nil rfl
    | var x =>
      obtain ⟨t, i, -, hi, rfl⟩ := lower_var.1 hk
      intro j hj
      obtain rfl : j = i := by simpa [loads, Instr.loads] using hj
      exact ⟨x, Expr.mem_nodes_self _, hi⟩
    | neg x =>
      obtain ⟨t, i, l, -, hi, hl, rfl⟩ := lower_neg.1 hk
      exact (part x (.head _) hl).append (.instr (loads_negInstr hi))
    | not x =>
      obtain ⟨t, l, -, hl, rfl⟩ := lower_not.1 hk
      exact (part x (.head _) hl).append (.instr rfl)
    | arith op a b =>
      obtain ⟨t, l, m, i, -, hl, hm, hi, rfl⟩ := lower_arith.1 hk
      exact ((part a (.head _) hl).append (part b (.tail _ (.head _)) hm)).append
        (.instr (loads_arithInstr hi))
    | compare c a b =>
      obtain ⟨t, l, m, -, hl, hm, rfl⟩ := lower_compare.1 hk
      exact ((part a (.head _) hl).append (part b (.tail _ (.head _)) hm)).append
        (.instr (loads_compareInstr c t))
    | and a b =>
      obtain ⟨t, l, m, -, hl, hm, rfl⟩ := lower_and.1 hk
      exact (part a (.head _) hl).append
        ((part b (.tail _ (.head _)) hm).branch (.of_loads_eq_nil rfl))
    | or a b =>
      obtain ⟨t, l, m, -, hl, hm, rfl⟩ := lower_or.1 hk
      exact (part a (.head _) hl).append
        (.branch (.of_loads_eq_nil rfl) (part b (.tail _ (.head _)) hm))
    | cond c a b =>
      obtain ⟨t, l, m, n, -, hl, hm, hn, rfl⟩ := lower_cond.1 hk
      exact (part c (.head _) hl).append
        ((part a (.tail _ (.head _)) hm).branch (part b (.tail _ (.tail _ (.head _))) hn))
    | call name args =>
      obtain ⟨t, g, l, -, -, -, hl, rfl⟩ := lower_call.1 hk
      exact (loadsOnly_lowerAll (fun p hp k => part p hp) hl).append (.instr rfl)

theorem loadsOnly_lowerAs {u : DType} (hk : Γ.lowerAs e u = .ok k) : Γ.LoadsOnly e k :=
  loadsOnly_codeAs (fun _ => loadsOnly_lower) hk

/-! ## Unknown names -/

theorem misses_of_refused {err : Error} (h : Γ.Refused e err) :
    e.Misses (fun x => Γ.index? x = none) err := by
  rintro x rfl
  obtain ⟨n, hn, hrefuses⟩ := h
  cases hrefuses with
  | unknown hx => exact ⟨hn, hx⟩

theorem lower_misses (e : Expr) :
    Ends (Γ.lower e) (fun _ => True) (e.Misses fun x => Γ.index? x = none) :=
  (lower_refused e).mono (fun _ => id) fun _ => misses_of_refused

theorem lowerAs_misses (e : Expr) (u : DType) :
    Ends (Γ.lowerAs e u) (fun _ => True) (e.Misses fun x => Γ.index? x = none) :=
  (lowerAs_refused e u).mono (fun _ => id) fun _ => misses_of_refused

end Scope

end Pointwise

import Mathlib.Data.List.Nodup
import Pointwise.Loop.Table

/-!
# The loops of a table

A table that has been filled by insertions is determined by the list of its loops, no two of which
have the same argument types.
-/

namespace Pointwise

theorem mem_of_lookup {α β : Type} [BEq α] [LawfulBEq α] {l : List (α × β)} {k : α} {v : β}
    (h : l.lookup k = some v) : (k, v) ∈ l := by
  obtain ⟨before, after, rfl, -⟩ := List.lookup_eq_some_iff.1 h
  simp

theorem lookup_of_mem {α β : Type} [BEq α] [LawfulBEq α] {l : List (α × β)} {k : α} {v : β}
    (hl : (l.map Prod.fst).Nodup) (h : (k, v) ∈ l) : l.lookup k = some v := by
  induction l with
  | nil => simp at h
  | cons p l ih =>
    rw [List.map_cons, List.nodup_cons] at hl
    rw [List.lookup_cons]
    rcases List.mem_cons.1 h with rfl | h
    · simp
    · have hne : (k == p.1) = false := by
        rw [beq_eq_false_iff_ne]
        rintro rfl
        exact hl.1 (List.mem_map.2 ⟨_, h, rfl⟩)
      simp only [hne, ih hl.2 h]

namespace LoopTable

/-- The table that these loops have been put into, in this order. -/
structure Lists (table : LoopTable) (loops : List Loop) : Prop where
  distinct : (loops.map Loop.args).Nodup
  entries : table.entries = (loops.map fun l => (l.args, l)).reverse
  order : table.order = loops.map Loop.args
  retained : table.retained = loops.map fun l => (l.symbol, l.imports)

/-- The table keeps a loop, its place in the order and its code for each of some argument types. -/
structure WellFormed (table : LoopTable) (nin : Nat) : Prop where
  distinct : (table.entries.map Prod.fst).Nodup
  order : table.order.Perm (table.entries.map Prod.fst)
  retained : table.retained = table.toList.map fun l => (l.symbol, l.imports)
  length_retained : table.retained.length = table.size
  stored : ∀ args l, (args, l) ∈ table.entries →
    l.signature = ⟨args, some l.ret⟩ ∧ args.length = nin

theorem lists_empty : empty.Lists [] := ⟨List.nodup_nil, rfl, rfl, rfl⟩

namespace Lists

variable {table table' : LoopTable} {loops loops' : List Loop} {l : Loop} {args : List DType}

theorem keys (h : table.Lists loops) :
    table.entries.map Prod.fst = (loops.map Loop.args).reverse := by
  simp [h.entries, Function.comp_def]

theorem get?_eq_some (h : table.Lists loops) :
    table.get? args = some l ↔ l ∈ loops ∧ l.args = args := by
  have hmem : (args, l) ∈ table.entries ↔ l ∈ loops ∧ l.args = args := by
    rw [h.entries]
    simp only [List.mem_reverse, List.mem_map, Prod.mk.injEq]
    constructor
    · rintro ⟨m, hm, rfl, rfl⟩
      exact ⟨hm, rfl⟩
    · rintro ⟨hl, rfl⟩
      exact ⟨l, hl, rfl, rfl⟩
  have hnodup : (table.entries.map Prod.fst).Nodup := by
    rw [h.keys, List.nodup_reverse]
    exact h.distinct
  unfold get?
  rw [← hmem]
  exact ⟨mem_of_lookup, lookup_of_mem hnodup⟩

theorem toList_eq (h : table.Lists loops) : table.toList = loops := by
  have hget : ∀ l ∈ loops, table.get? l.args = some l := by
    intro l hl
    simp [h.get?_eq_some, hl]
  have hsome : ∀ l ∈ loops, (table.get? ∘ Loop.args) l = some l := hget
  unfold toList
  rw [h.order, List.filterMap_map, List.filterMap_congr hsome]
  exact List.filterMap_some

theorem get?_eq_none (h : table.Lists loops) : table.get? args = none ↔ args ∉ table.order := by
  rw [Option.eq_none_iff_forall_ne_some, h.order, List.mem_map]
  simp only [ne_eq, h.get?_eq_some]
  exact not_exists.symm

theorem insert (h : table.Lists loops) (hl : table.get? l.args = none) :
    (table.insert l).2.Lists (loops ++ [l]) := by
  rw [h.get?_eq_none, h.order] at hl
  have hnone : table.get? l.args = none := by rwa [h.get?_eq_none, h.order]
  unfold LoopTable.insert
  rw [hnone]
  refine ⟨?_, ?_, ?_, ?_⟩
  · rw [List.map_append, List.nodup_append]
    refine ⟨h.distinct, by simp, ?_⟩
    intro args hargs args' hargs' heq
    rw [List.map_singleton, List.mem_singleton] at hargs'
    exact hl (hargs' ▸ heq ▸ hargs)
  · simp [h.entries]
  · simp [h.order]
  · simp [h.retained]

theorem unique (h : table.Lists loops) (h' : table'.Lists loops) : table = table' := by
  obtain ⟨-, hentries, horder, hretained⟩ := h
  obtain ⟨-, hentries', horder', hretained'⟩ := h'
  cases table
  cases table'
  simp_all

theorem wellFormed (h : table.Lists loops) {nin : Nat}
    (hloops : ∀ l ∈ loops, l.args.length = nin) : table.WellFormed nin where
  distinct := by
    rw [h.keys, List.nodup_reverse]
    exact h.distinct
  order := by
    rw [h.keys, h.order]
    exact (List.reverse_perm _).symm
  retained := by rw [h.toList_eq, h.retained]
  length_retained := by simp [size, h.retained, h.entries]
  stored := by
    intro args l hl
    rw [h.entries] at hl
    simp only [List.mem_reverse, List.mem_map, Prod.mk.injEq] at hl
    obtain ⟨m, hm, rfl, rfl⟩ := hl
    exact ⟨rfl, hloops m hm⟩

end Lists

end LoopTable

end Pointwise

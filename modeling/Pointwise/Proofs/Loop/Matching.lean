import Mathlib.Data.List.Forall2
import Mathlib.Data.List.Nodup
import Pointwise.Loop.Matching

/-!
# The best loop

A safe conversion never goes to a less promoted type. So of the loops that take arguments of some
types, one that has these very types is the least promoted one, and as no two loops of a table have
the same types there is one that comes before all others, whatever their order in the table.
-/

namespace Pointwise

namespace DType

theorem castsSafely_self (t : DType) : t.castsSafely t = true := by cases t <;> rfl

theorem order_le_of_castsSafely {s t : DType} (h : s.castsSafely t = true) : s.order ≤ t.order := by
  revert h
  cases s <;> cases t <;> decide

end DType

namespace Loop

variable {l m : Loop} {ts : List DType} {loops loops' : List Loop} {best : Option Loop}

/-- The loop has as many arguments as requested, and each requested type converts to it safely. -/
def Takes (l : Loop) (requested : List DType) : Prop :=
  List.Forall₂ (fun s t => s.castsSafely t = true) requested l.args

/-- The one loop that takes the requested types and comes before all others that do. -/
structure IsBest (l : Loop) (requested : List DType) (loops : List Loop) : Prop where
  mem : l ∈ loops
  takes : l.Takes requested
  least : ∀ m ∈ loops, m.Takes requested → m = l ∨ l.rank < m.rank

theorem accepts_iff : l.accepts ts = true ↔ l.Takes ts := by
  unfold accepts Takes
  rw [Bool.and_eq_true, beq_iff_eq, List.all_eq_true, List.forall₂_iff_zip, eq_comm, Prod.forall]

/-! ## Ranks -/

theorem args_eq_of_rank_eq (h : l.rank = m.rank) : l.args = m.args :=
  List.map_injective_iff.2 (fun _ _ => DType.order_injective) h

theorem lt_of_rank_le (h : l.rank ≤ m.rank) (hne : l.args ≠ m.args) : l.rank < m.rank := by
  rw [← List.not_le]
  exact fun hge => hne (args_eq_of_rank_eq (List.le_antisymm h hge))

theorem rank_le_of_takes (h : m.Takes l.args) : l.rank ≤ m.rank := by
  unfold Takes at h
  unfold rank
  generalize l.args = ts, m.args = us at h ⊢
  induction h with
  | nil => exact List.le_refl _
  | cons hcast _ ih =>
    rw [List.map_cons, List.map_cons, List.cons_le_cons_iff]
    rcases Nat.lt_or_eq_of_le (DType.order_le_of_castsSafely hcast) with hlt | heq
    · exact .inl hlt
    · exact .inr ⟨heq, ih⟩

theorem takes_self (l : Loop) : l.Takes l.args :=
  List.forall₂_same.2 fun t _ => t.castsSafely_self

namespace IsBest

theorem unique (hl : l.IsBest ts loops) (hm : m.IsBest ts loops) : l = m := by
  rcases hl.least m hm.mem hm.takes with heq | hlt
  · exact heq.symm
  · rcases hm.least l hl.mem hl.takes with heq | hgt
    · exact heq
    · exact absurd (List.lt_trans hlt hgt) (List.lt_irrefl _)

theorem perm (h : l.IsBest ts loops) (hperm : loops.Perm loops') : l.IsBest ts loops' :=
  ⟨hperm.mem_iff.1 h.mem, h.takes, fun m hm => h.least m (hperm.mem_iff.2 hm)⟩

theorem of_args (hdistinct : (loops.map Loop.args).Nodup) (hl : l ∈ loops) :
    l.IsBest l.args loops := by
  refine ⟨hl, l.takes_self, fun m hm htakes => ?_⟩
  by_cases hargs : l.args = m.args
  · exact .inl (List.inj_on_of_nodup_map hdistinct hm hl hargs.symm)
  · exact .inr (lt_of_rank_le (rank_le_of_takes htakes) hargs)

end IsBest

/-! ## The search -/

/-- The loop kept so far is one of those before, and promoted no more than any of them. -/
theorem exists_foldl_better (b : Loop) (loops : List Loop) :
    ∃ l ∈ b :: loops, loops.foldl better (some b) = some l ∧ ∀ m ∈ b :: loops, l.rank ≤ m.rank := by
  induction loops generalizing b with
  | nil => exact ⟨b, .head _, rfl, by simp⟩
  | cons x loops ih =>
    rw [List.foldl_cons, better]
    split
    next hle =>
      obtain ⟨l, hl, hfold, hall⟩ := ih b
      obtain ⟨hb, hloops⟩ := List.forall_mem_cons.1 hall
      have hx : l.rank ≤ x.rank := List.le_trans hb hle
      refine ⟨l, ?_, hfold, List.forall_mem_cons.2 ⟨hb, List.forall_mem_cons.2 ⟨hx, hloops⟩⟩⟩
      exact List.mem_cons.2 ((List.mem_cons.1 hl).imp_right (.tail _))
    next hlt =>
      obtain ⟨l, hl, hfold, hall⟩ := ih x
      have hb : l.rank ≤ b.rank :=
        List.le_trans (hall x (.head _)) (List.le_of_lt (List.not_le.1 hlt))
      exact ⟨l, .tail _ hl, hfold, List.forall_mem_cons.2 ⟨hb, hall⟩⟩

theorem findMatching?_cases (ts : List DType) (loops : List Loop) :
    (findMatching? ts loops = none ∧ ∀ m ∈ loops, ¬m.Takes ts) ∨
      ∃ l ∈ loops, findMatching? ts loops = some l ∧ l.Takes ts ∧
        ∀ m ∈ loops, m.Takes ts → l.rank ≤ m.rank := by
  have hmem : ∀ m, m ∈ loops.filter (·.accepts ts) ↔ m ∈ loops ∧ m.Takes ts := fun m => by
    rw [List.mem_filter, accepts_iff]
  unfold findMatching?
  cases hfilter : loops.filter (·.accepts ts) with
  | nil =>
    refine .inl ⟨rfl, fun m hm htakes => ?_⟩
    have hnone := (hmem m).2 ⟨hm, htakes⟩
    rw [hfilter] at hnone
    cases hnone
  | cons b rest =>
    rw [hfilter] at hmem
    obtain ⟨l, hl, hfold, hall⟩ := exists_foldl_better b rest
    obtain ⟨hloop, htakes⟩ := (hmem l).1 hl
    exact .inr ⟨l, hloop, hfold, htakes, fun m hm hm' => hall m ((hmem m).2 ⟨hm, hm'⟩)⟩

theorem findMatching?_eq_some (h : findMatching? ts loops = some l) : l ∈ loops ∧ l.Takes ts := by
  rcases findMatching?_cases ts loops with ⟨hnone, -⟩ | ⟨l', hmem, hl', htakes, -⟩
  · cases h.symm.trans hnone
  · cases h.symm.trans hl'
    exact ⟨hmem, htakes⟩

theorem findMatching?_isSome_iff :
    (∃ l, findMatching? ts loops = some l) ↔ ∃ l ∈ loops, l.Takes ts := by
  constructor
  · rintro ⟨l, hl⟩
    exact ⟨l, findMatching?_eq_some hl⟩
  · rintro ⟨m, hm, htakes⟩
    rcases findMatching?_cases ts loops with ⟨-, hnone⟩ | ⟨l, -, hl, -⟩
    · exact absurd htakes (hnone m hm)
    · exact ⟨l, hl⟩

theorem findMatching?_eq_some_iff (hdistinct : (loops.map Loop.args).Nodup) :
    findMatching? ts loops = some l ↔ l.IsBest ts loops := by
  have hbest : ∀ {l}, findMatching? ts loops = some l → l.IsBest ts loops := by
    intro l hl
    rcases findMatching?_cases ts loops with ⟨hnone, -⟩ | ⟨l', hmem, hl', htakes, hall⟩
    · cases hl.symm.trans hnone
    cases hl.symm.trans hl'
    refine ⟨hmem, htakes, fun m hm hm' => ?_⟩
    by_cases hargs : l.args = m.args
    · exact .inl (List.inj_on_of_nodup_map hdistinct hm hmem hargs.symm)
    · exact .inr (lt_of_rank_le (hall m hm hm') hargs)
  refine ⟨hbest, fun h => ?_⟩
  obtain ⟨l', hl'⟩ := findMatching?_isSome_iff.2 ⟨l, h.mem, h.takes⟩
  rw [hl', (hbest hl').unique h]

end Loop

end Pointwise

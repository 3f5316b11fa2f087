import Mathlib.Data.List.Sort
import Pointwise.Reduction

/-!
# The coordinates of a shape

The odometer counts through exactly the coordinates that belong to a shape, in lexicographic order.
-/

namespace Pointwise

open NDArray (inBounds)

theorem inBounds_cons {d i : Nat} {ds is : List Nat} :
    inBounds (d :: ds) (i :: is) = true ↔ i < d ∧ inBounds ds is = true := by
  simp only [inBounds, List.length_cons, List.zip_cons_cons, List.all_cons, Bool.and_eq_true,
    beq_iff_eq, Nat.succ_inj, decide_eq_true_eq]
  constructor
  · rintro ⟨h1, h2, h3⟩
    exact ⟨h2, h1, h3⟩
  · rintro ⟨h1, h2, h3⟩
    exact ⟨h2, h1, h3⟩

theorem length_of_inBounds {shape index : List Nat} (h : inBounds shape index = true) :
    index.length = shape.length := by
  unfold inBounds at h
  simp only [Bool.and_eq_true, beq_iff_eq] at h
  exact h.1

/-- The coordinates of a shape, one block for each place along the first axis. -/
def coordinates : List Nat → List (List Nat)
  | [] => [[]]
  | d :: ds => (List.range d).flatMap fun i => (coordinates ds).map (i :: ·)

theorem length_coordinates (shape : List Nat) : (coordinates shape).length = size shape := by
  induction shape with
  | nil => rfl
  | cons d ds ih =>
    have hsize : size (d :: ds) = d * size ds := rfl
    simp [coordinates, List.length_flatMap, ih, hsize, List.map_const']

theorem mem_coordinates {shape index : List Nat} :
    index ∈ coordinates shape ↔ inBounds shape index = true := by
  induction shape generalizing index with
  | nil => cases index <;> simp [coordinates, inBounds]
  | cons d ds ih =>
    cases index with
    | nil => simp [coordinates, inBounds]
    | cons i is =>
      rw [inBounds_cons, ← ih]
      simp only [coordinates, List.mem_flatMap, List.mem_range, List.mem_map, List.cons.injEq]
      constructor
      · rintro ⟨j, hj, js, hjs, rfl, rfl⟩
        exact ⟨hj, hjs⟩
      · rintro ⟨hi, his⟩
        exact ⟨i, hi, is, his, rfl, rfl⟩

theorem pairwise_coordinates (shape : List Nat) : (coordinates shape).Pairwise (· < ·) := by
  induction shape with
  | nil => simp [coordinates]
  | cons d ds ih =>
    unfold coordinates
    rw [List.pairwise_flatMap]
    constructor
    · intro i _
      rw [List.pairwise_map]
      exact ih.imp fun h => List.cons_lt_cons_self.2 h
    · refine List.pairwise_lt_range.imp ?_
      intro i j hij
      simp only [List.mem_map]
      rintro _ ⟨is, -, rfl⟩ _ ⟨js, -, rfl⟩
      exact List.cons_lt_cons_iff.2 (.inl hij)

/-! ## The odometer -/

/-- Each coordinate of a list follows the one before it, and none follows the last. -/
def Walks (shape : List Nat) : List (List Nat) → Prop
  | [] => True
  | [i] => nextIndex? shape i = none
  | i :: j :: l => nextIndex? shape i = some j ∧ Walks shape (j :: l)

theorem next_started {shape index : List Nat} :
    Odometer.next ⟨shape, index, true, false⟩ =
      match nextIndex? shape index with
      | some j => (some j, ⟨shape, j, true, false⟩)
      | none => (none, ⟨shape, List.replicate shape.length 0, true, true⟩) := by
  unfold Odometer.next
  cases nextIndex? shape index <;> rfl

theorem take_walk {shape i : List Nat} {l : List (List Nat)} (h : Walks shape (i :: l)) :
    (Odometer.take l.length ⟨shape, i, true, false⟩).1 = l := by
  induction l generalizing i with
  | nil => rfl
  | cons j l ih =>
    obtain ⟨hnext, hl⟩ := h
    rw [List.length_cons, Odometer.take, next_started, hnext]
    simp only
    rw [ih hl]

theorem walks_block {d i : Nat} {ds : List Nat} {l m : List (List Nat)} (hl : Walks ds l)
    (hne : l ≠ []) (hlen : ∀ is ∈ l, is.length = ds.length) (hm : Walks (d :: ds) m)
    (hnext : m.head? = if i + 1 < d then some ((i + 1) :: List.replicate ds.length 0) else none) :
    Walks (d :: ds) (l.map (i :: ·) ++ m) := by
  induction l with
  | nil => exact absurd rfl hne
  | cons is l ih =>
    have his : is.length = ds.length := hlen is (by simp)
    cases l with
    | nil =>
      have hstep : nextIndex? (d :: ds) (i :: is) = m.head? := by
        rw [nextIndex?, show nextIndex? ds is = none from hl, hnext, his]
      cases m with
      | nil => exact hstep
      | cons j m => exact ⟨hstep, hm⟩
    | cons js l =>
      obtain ⟨hstep, hl⟩ := hl
      refine ⟨?_, ih hl (by simp) fun ks hks => hlen ks (by simp [hks])⟩
      rw [nextIndex?, hstep]

/-- The blocks of the places from `i` on. -/
def blocksFrom (l : List (List Nat)) (i n : Nat) : List (List Nat) :=
  (List.range' i n).flatMap fun i => l.map (i :: ·)

theorem blocksFrom_succ (l : List (List Nat)) (i n : Nat) :
    blocksFrom l i (n + 1) = l.map (i :: ·) ++ blocksFrom l (i + 1) n := by
  simp [blocksFrom, List.range'_succ]

theorem head?_blocksFrom {l : List (List Nat)} {z : List Nat} (h : l.head? = some z) (i n : Nat) :
    (blocksFrom l i n).head? = if 0 < n then some (i :: z) else none := by
  cases n with
  | zero => rfl
  | succ n => simp [blocksFrom_succ, h]

theorem walks_blocksFrom {d : Nat} {ds : List Nat} {l : List (List Nat)} (hl : Walks ds l)
    (hhead : l.head? = some (List.replicate ds.length 0))
    (hlen : ∀ is ∈ l, is.length = ds.length) {i n : Nat} (hi : i + n = d) :
    Walks (d :: ds) (blocksFrom l i n) := by
  induction n generalizing i with
  | zero => trivial
  | succ n ih =>
    have hne : l ≠ [] := by
      rintro rfl
      cases hhead
    rw [blocksFrom_succ]
    refine walks_block hl hne hlen (ih (by omega)) ?_
    rw [head?_blocksFrom hhead]
    by_cases hn : 0 < n
    · rw [if_pos hn, if_pos (by omega)]
    · rw [if_neg hn, if_neg (by omega)]

theorem coordinates_cons (d : Nat) (ds : List Nat) :
    coordinates (d :: ds) = blocksFrom (coordinates ds) 0 d := by
  rw [coordinates, blocksFrom, List.range_eq_range']

theorem head?_coordinates {shape : List Nat} (h : coordinates shape ≠ []) :
    (coordinates shape).head? = some (List.replicate shape.length 0) := by
  induction shape with
  | nil => rfl
  | cons d ds ih =>
    rw [coordinates_cons] at h ⊢
    have hds : coordinates ds ≠ [] := by
      intro hds
      simp [hds, blocksFrom] at h
    have hd : 0 < d := by
      rcases Nat.eq_zero_or_pos d with rfl | hd
      · simp [blocksFrom] at h
      · exact hd
    rw [head?_blocksFrom (ih hds), if_pos hd]
    rfl

theorem walks_coordinates (shape : List Nat) : Walks shape (coordinates shape) := by
  induction shape with
  | nil => rfl
  | cons d ds ih =>
    rw [coordinates_cons]
    by_cases hds : coordinates ds = []
    · have hnil : blocksFrom [] 0 d = [] := List.flatMap_eq_nil_iff.2 (by simp)
      rw [hds, hnil]
      trivial
    · exact walks_blocksFrom ih (head?_coordinates hds)
        (fun is his => length_of_inBounds (mem_coordinates.1 his)) (by omega)

theorem no_empty_axis {shape : List Nat} (h : inBounds shape (List.replicate shape.length 0) = true) :
    shape.any (· == 0) = false := by
  induction shape with
  | nil => rfl
  | cons d ds ih =>
    obtain ⟨hd, hds⟩ := inBounds_cons.1 h
    simp [ih hds, Nat.ne_of_gt hd]

/-- The odometer goes through the coordinates of its shape. -/
theorem indices_eq_coordinates (shape : List Nat) : indices shape = coordinates shape := by
  have hwalk := walks_coordinates shape
  have hlen := length_coordinates shape
  unfold indices
  rw [← hlen]
  cases hc : coordinates shape with
  | nil => rfl
  | cons i l =>
    have hi : i = List.replicate shape.length 0 := by
      have hhead : (coordinates shape).head? = some (List.replicate shape.length 0) :=
        head?_coordinates (by simp [hc])
      simpa [hc] using hhead
    have hmem : i ∈ coordinates shape := by simp [hc]
    rw [hi] at hmem
    have hdone := no_empty_axis (mem_coordinates.1 hmem)
    rw [hc] at hwalk
    have hrest := take_walk hwalk
    rw [List.length_cons, Odometer.take, Odometer.next, Odometer.start, hdone]
    simp only [Bool.false_eq_true, if_false, Bool.not_false, if_true]
    rw [← hi, hrest]

/-! ## What the odometer counts through -/

theorem mem_indices {shape index : List Nat} :
    index ∈ indices shape ↔ inBounds shape index = true := by
  rw [indices_eq_coordinates, mem_coordinates]

theorem pairwise_indices (shape : List Nat) : (indices shape).Pairwise (· < ·) := by
  rw [indices_eq_coordinates]
  exact pairwise_coordinates shape

/-! ## Lines along an axis -/

theorem removeAt_zero {α : Type} (x : α) (l : List α) : removeAt 0 (x :: l) = l := rfl

theorem removeAt_succ {α : Type} (k : Nat) (x : α) (l : List α) :
    removeAt (k + 1) (x :: l) = x :: removeAt k l := rfl

theorem insertAt_succ {α : Type} (k : Nat) (x y : α) (l : List α) :
    insertAt (k + 1) x (y :: l) = y :: insertAt k x l := rfl

theorem getD_insertAt {k i : Nat} {j : List Nat} (h : k ≤ j.length) :
    (insertAt k i j).getD k 0 = i := by
  simp [insertAt, List.getD_eq_getElem?_getD, Nat.min_eq_left h]

theorem insertAt_removeAt {k : Nat} {l : List Nat} (h : k < l.length) :
    insertAt k (l.getD k 0) (removeAt k l) = l := by
  induction k generalizing l with
  | zero =>
    cases l with
    | nil => cases h
    | cons x l => rfl
  | succ k ih =>
    cases l with
    | nil => cases h
    | cons x l =>
      have := ih (l := l) (Nat.lt_of_succ_lt_succ h)
      simpa [removeAt_succ, insertAt_succ] using this

theorem inBounds_insertAt {k i : Nat} {shape j : List Nat} (hk : k < shape.length) :
    inBounds shape (insertAt k i j) = true ↔
      i < shape.getD k 0 ∧ inBounds (removeAt k shape) j = true := by
  induction k generalizing shape j with
  | zero =>
    cases shape with
    | nil => cases hk
    | cons d ds => exact inBounds_cons
  | succ k ih =>
    cases shape with
    | nil => cases hk
    | cons d ds =>
      cases j with
      | nil =>
        have hds : ds ≠ [] := by
          rintro rfl
          exact absurd (Nat.lt_of_succ_lt_succ hk) (Nat.not_lt_zero k)
        simp [insertAt, removeAt_succ, inBounds, hds]
      | cons j js =>
        rw [insertAt_succ, removeAt_succ, inBounds_cons, inBounds_cons,
          ih (Nat.lt_of_succ_lt_succ hk)]
        simp only [List.getD_cons_succ]
        constructor
        · rintro ⟨h1, h2, h3⟩
          exact ⟨h2, h1, h3⟩
        · rintro ⟨h1, h2, h3⟩
          exact ⟨h2, h1, h3⟩

theorem insertAt_lt {k i i' : Nat} {j : List Nat} (h : i < i') :
    insertAt k i j < insertAt k i' j :=
  List.append_left_lt (List.cons_lt_cons_iff.2 (.inl h))

theorem filter_indices {k : Nat} {shape j : List Nat} (hk : k < shape.length)
    (hj : inBounds (removeAt k shape) j = true) :
    (indices shape).filter (removeAt k · == j) =
      (List.range (shape.getD k 0)).map (insertAt k · j) := by
  have hlen : (removeAt k shape).length + 1 = shape.length := by
    simp [removeAt]
    omega
  have hkj : k ≤ j.length := by
    have := length_of_inBounds hj
    omega
  have hleft := (pairwise_indices shape).sublist (List.filter_sublist (p := (removeAt k · == j)))
  have hright : ((List.range (shape.getD k 0)).map (insertAt k · j)).Pairwise (· < ·) := by
    rw [List.pairwise_map]
    exact List.pairwise_lt_range.imp insertAt_lt
  refine hleft.eq_of_mem_iff hright fun idx => ?_
  simp only [List.mem_filter, mem_indices, beq_iff_eq, List.mem_map, List.mem_range]
  constructor
  · rintro ⟨hin, rfl⟩
    have hk' : k < idx.length := by
      have := length_of_inBounds hin
      omega
    have hins := insertAt_removeAt hk'
    rw [← hins, inBounds_insertAt hk] at hin
    exact ⟨idx.getD k 0, hin.1, hins⟩
  · rintro ⟨i, hi, rfl⟩
    exact ⟨(inBounds_insertAt hk).2 ⟨hi, hj⟩, removeAt_insertAt i hkj⟩

theorem existsUnique_line {k : Nat} {shape idx : List Nat} (hk : k < shape.length)
    (hidx : inBounds shape idx = true) :
    ∃! p : List Nat × Nat, inBounds (removeAt k shape) p.1 = true ∧ p.2 < shape.getD k 0 ∧
      insertAt k p.2 p.1 = idx := by
  have hk' : k < idx.length := by
    have := length_of_inBounds hidx
    omega
  have hins := insertAt_removeAt hk'
  have hin := hidx
  rw [← hins, inBounds_insertAt hk] at hin
  refine ⟨(removeAt k idx, idx.getD k 0), ⟨hin.2, hin.1, hins⟩, ?_⟩
  rintro ⟨j, i⟩ ⟨hj, -, rfl⟩
  have hkj : k ≤ j.length := by
    have := length_of_inBounds hj
    simp [removeAt] at this
    omega
  rw [removeAt_insertAt i hkj, getD_insertAt hkj]

end Pointwise

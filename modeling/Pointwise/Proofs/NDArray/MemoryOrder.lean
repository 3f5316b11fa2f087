import Pointwise.Proofs.NDArray.Reachable

/-!
# What the memory order tells

The order of an array is found by comparing strides. It should tell where the elements lie, and does
so for all axes but those of length 1: the stride of such an axis takes no part in where an element
is, and takes part in the comparison.
-/

namespace Pointwise

open NDArray (inBounds)

/-! ## Places in row-major order -/

theorem getElem?_indices {shape i : List Nat} {r : Nat} :
    (indices shape)[r]? = some i ↔ inBounds shape i = true ∧ flatIndex shape i = r := by
  have hplace {r : Nat} {i : List Nat} (h : (indices shape)[r]? = some i) :
      flatIndex shape i = r := by
    have hget := congrArg (·[r]?) (map_flatIndex_indices shape)
    simp only [List.getElem?_map, h, Option.map_some] at hget
    exact (List.getElem?_eq_some_iff.1 hget.symm).2.symm.trans (by simp)
  constructor
  · intro h
    exact ⟨mem_indices.1 (List.mem_of_getElem? h), hplace h⟩
  · rintro ⟨hi, rfl⟩
    obtain ⟨r, hr⟩ := List.getElem?_of_mem (mem_indices.2 hi)
    rwa [hplace hr]

theorem inBounds_zeros {shape : List Nat} (h : size shape ≠ 0) :
    inBounds shape (List.replicate shape.length 0) = true := by
  induction shape with
  | nil => rfl
  | cons d ds ih =>
    rw [size_cons, Nat.mul_ne_zero_iff] at h
    exact inBounds_cons.2 ⟨Nat.pos_of_ne_zero h.1, ih h.2⟩

/-! ## Strides and distances -/

theorem distance_cons (s : Int) (ss : List Int) (i : Nat) (is : List Nat) :
    distance (s :: ss) (i :: is) = i * s + distance ss is := rfl

theorem distance_reverse {strides : List Int} {i : List Nat} (h : i.length = strides.length) :
    distance strides.reverse i.reverse = distance strides i := by
  unfold distance
  rw [← List.reverse_zipWith h, List.sum_reverse]

theorem inBounds_reverse {shape i : List Nat} :
    inBounds shape.reverse i.reverse = true ↔ inBounds shape i = true := by
  unfold NDArray.inBounds
  by_cases h : i.length = shape.length
  · rw [List.zip, ← List.reverse_zipWith h]
    simp
  · simp [h]

theorem distances_eq_iff {shape : List Nat} {strides strides' : List Int} (hne : size shape ≠ 0)
    (h : strides.length = shape.length) (h' : strides'.length = shape.length) :
    (∀ i, inBounds shape i = true → distance strides i = distance strides' i) ↔
      ∀ k < shape.length, shape.getD k 0 ≠ 1 → strides.getD k 0 = strides'.getD k 0 := by
  induction shape generalizing strides strides' with
  | nil =>
    obtain rfl := List.eq_nil_of_length_eq_zero h
    obtain rfl := List.eq_nil_of_length_eq_zero h'
    simp
  | cons d ds ih =>
    obtain ⟨s, ss, rfl⟩ := List.exists_cons_of_length_eq_add_one h
    obtain ⟨s', ss', rfl⟩ := List.exists_cons_of_length_eq_add_one h'
    rw [size_cons, Nat.mul_ne_zero_iff] at hne
    rw [List.length_cons, Nat.forall_lt_succ_left]
    have hrest := ih hne.2 (Nat.succ_inj.1 h) (Nat.succ_inj.1 h')
    have hzeros := inBounds_zeros hne.2
    constructor
    · intro hall
      have htail : ∀ is, inBounds ds is = true → distance ss is = distance ss' is := by
        intro is his
        have hat := hall (0 :: is) (inBounds_cons.2 ⟨Nat.pos_of_ne_zero hne.1, his⟩)
        simpa [distance_cons] using hat
      refine ⟨fun hd => ?_, hrest.1 htail⟩
      -- The second place along the first axis, and the first one along the others.
      have htwo : 1 < d := by
        have hpos := Nat.pos_of_ne_zero hne.1
        simp only [List.getD_cons_zero] at hd
        omega
      have hat := hall (1 :: List.replicate ds.length 0) (inBounds_cons.2 ⟨htwo, hzeros⟩)
      rw [distance_cons, distance_cons, htail _ hzeros] at hat
      simpa using hat
    · rintro ⟨hhead, htail⟩ (_ | ⟨i, is⟩) hi
      · cases hi
      obtain ⟨hid, his⟩ := inBounds_cons.1 hi
      rw [distance_cons, distance_cons, hrest.2 htail is his]
      by_cases hd : d = 1
      · obtain rfl : i = 0 := by omega
        simp
      · rw [show s = s' from hhead hd]

/-- Which distances there are leaves open the strides of the axes of length 1 only. -/
theorem strides_eq_iff {shape : List Nat} {strides strides' : List Int} (hne : size shape ≠ 0)
    (h : strides.length = shape.length) (h' : strides'.length = shape.length) :
    strides = strides' ↔
      (∀ i, inBounds shape i = true → distance strides i = distance strides' i) ∧
        ∀ k < shape.length, shape.getD k 0 = 1 → strides.getD k 0 = strides'.getD k 0 := by
  rw [distances_eq_iff hne h h']
  constructor
  · rintro rfl
    exact ⟨fun _ _ _ => rfl, fun _ _ _ => rfl⟩
  · rintro ⟨hlong, hunit⟩
    have hall : ∀ k < shape.length, strides.getD k 0 = strides'.getD k 0 := fun k hk =>
      if hd : shape.getD k 0 = 1 then hunit k hk hd else hlong k hk hd
    apply List.ext_getElem (h.trans h'.symm)
    intro k hk hk'
    simpa [hk, hk'] using hall k (h ▸ hk)

@[simp] theorem length_columnMajorStrides (itemsize : Nat) (shape : List Nat) :
    (columnMajorStrides itemsize shape).length = shape.length := by
  simp [columnMajorStrides]

theorem distance_columnMajorStrides {itemsize : Nat} {shape i : List Nat}
    (hi : inBounds shape i = true) :
    distance (columnMajorStrides itemsize shape) i =
      (itemsize * flatIndex shape.reverse i.reverse : Nat) := by
  have hlen : i.reverse.length = (rowMajorStrides itemsize shape.reverse).length := by
    simp [length_of_inBounds hi]
  have hback := distance_reverse hlen
  rw [List.reverse_reverse] at hback
  exact hback.trans (sum_rowMajorStrides (inBounds_reverse.2 hi))

/-! ## Strides in machine words -/

theorem rowMajorStrides_range {itemsize : Nat} {shape : List Nat} {s : Int}
    (h : s ∈ rowMajorStrides itemsize shape) : 0 ≤ s ∧ s ≤ (itemsize * span shape : Nat) := by
  induction shape with
  | nil => cases h
  | cons d ds ih =>
    have hspan : span ds ≤ span (d :: ds) :=
      Nat.le_mul_of_pos_left _ (Nat.lt_of_lt_of_le Nat.one_pos (Nat.le_max_right d 1))
    have hle : itemsize * span ds ≤ itemsize * span (d :: ds) := Nat.mul_le_mul_left _ hspan
    rw [rowMajorStrides, List.mem_cons] at h
    rcases h with rfl | h
    · omega
    · have := ih h
      omega

theorem map_signedWord {l : List Int} {n : Nat} (h : ∀ s ∈ l, 0 ≤ s ∧ s ≤ n)
    (hn : n < 2 ^ (63 : Nat)) : l.map signedWord = l := by
  conv => rhs; rw [← List.map_id l]
  apply List.map_congr_left
  intro s hs
  have hrange := h s hs
  exact signedWord_of_fits (by omega) (by omega)

namespace NDArray

open Stateful

variable {a : NDArray}

theorem Gapless.strides_range (h : a.Gapless) (hne : Pointwise.size a.shape ≠ 0) {s : Int}
    (hs : s ∈ a.strides) : 0 ≤ s ∧ s ≤ a.data.size := by
  obtain ⟨shape, hperm⟩ := h.axes
  have hshape := hperm.map Prod.fst
  have hstrides := hperm.map Prod.snd
  rw [List.map_fst_zip h.length.ge, List.map_fst_zip (length_rowMajorStrides ..).ge] at hshape
  rw [List.map_snd_zip h.length.le, List.map_snd_zip (length_rowMajorStrides ..).le] at hstrides
  have hsize := size_perm hshape
  have hspan : span shape = Pointwise.size a.shape := by
    rw [hsize, span_eq_size (inBounds_zeros (hsize ▸ hne))]
  have hrange := rowMajorStrides_range (hstrides.subset hs)
  rwa [hspan, ← h.size] at hrange

theorem Gapless.order_eq (h : a.Gapless) (hne : Pointwise.size a.shape ≠ 0)
    (hsize : a.data.size < 2 ^ (63 : Nat)) :
    a.order = if a.strides = rowMajorStrides a.itemsize a.shape then .rowMajor
      else if a.strides = columnMajorStrides a.itemsize a.shape then .columnMajor
      else .irregular := by
  have hspan : span a.shape = Pointwise.size a.shape := span_eq_size (inBounds_zeros hne)
  have hrow : (rowMajorStrides a.itemsize a.shape).map signedWord =
      rowMajorStrides a.itemsize a.shape := by
    refine map_signedWord (fun s hs => ?_) hsize
    have hrange := rowMajorStrides_range hs
    rwa [hspan, ← h.size] at hrange
  have hcolumn : (columnMajorStrides a.itemsize a.shape).map signedWord =
      columnMajorStrides a.itemsize a.shape := by
    refine map_signedWord (fun s hs => ?_) hsize
    have hreverse := size_perm (List.reverse_perm a.shape)
    have hrange := rowMajorStrides_range (List.mem_reverse.1 hs)
    rwa [span_eq_size (inBounds_zeros (hreverse ▸ hne)), hreverse, ← h.size] at hrange
  unfold order strideWords
  rw [map_signedWord (fun s hs => h.strides_range hne hs) hsize, hrow, hcolumn]

theorem Gapless.order_eq_iff (h : a.Gapless) (hne : Pointwise.size a.shape ≠ 0)
    (hsize : a.data.size < 2 ^ (63 : Nat)) :
    (a.order = .rowMajor ↔ a.strides = rowMajorStrides a.itemsize a.shape) ∧
      (a.order = .columnMajor ↔
        a.order ≠ .rowMajor ∧ a.strides = columnMajorStrides a.itemsize a.shape) := by
  rw [h.order_eq hne hsize]
  by_cases hrow : a.strides = rowMajorStrides a.itemsize a.shape
  · rw [if_pos hrow]
    exact ⟨⟨fun _ => hrow, fun _ => rfl⟩, nofun, fun ⟨hne, _⟩ => absurd rfl hne⟩
  rw [if_neg hrow]
  by_cases hcolumn : a.strides = columnMajorStrides a.itemsize a.shape
  · rw [if_pos hcolumn]
    exact ⟨⟨nofun, fun heq => absurd heq hrow⟩, fun _ => ⟨nofun, hcolumn⟩, fun _ => rfl⟩
  · rw [if_neg hcolumn]
    exact ⟨⟨nofun, fun heq => absurd heq hrow⟩, nofun, fun ⟨_, heq⟩ => absurd heq hcolumn⟩

/-! ## Contiguity -/

/-- The `r`-th element in row-major order is `r` elements after the first one. -/
def IsRowMajor (a : NDArray) : Prop :=
  ∀ r i, (indices a.shape)[r]? = some i → a.byteOffset i = r * a.itemsize

/-- The `r`-th element, the first axis running fastest, is `r` elements after the first one. -/
def IsColumnMajor (a : NDArray) : Prop :=
  ∀ r i, (indices a.shape.reverse)[r]? = some i → a.byteOffset i.reverse = r * a.itemsize

theorem Gapless.isRowMajor_iff (h : a.Gapless) :
    a.IsRowMajor ↔ ∀ i, inBounds a.shape i = true →
      distance a.strides i = distance (rowMajorStrides a.itemsize a.shape) i := by
  unfold IsRowMajor
  simp only [getElem?_indices]
  constructor
  · intro hall i hi
    rw [← h.byteOffset_eq_distance hi, hall _ i ⟨hi, rfl⟩, Nat.mul_comm]
    exact (sum_rowMajorStrides hi).symm
  · rintro hall _ i ⟨hi, rfl⟩
    have hdistance := (h.byteOffset_eq_distance hi).trans
      ((hall i hi).trans (sum_rowMajorStrides hi))
    rw [Nat.mul_comm]
    exact_mod_cast hdistance

theorem Gapless.isColumnMajor_iff (h : a.Gapless) :
    a.IsColumnMajor ↔ ∀ i, inBounds a.shape i = true →
      distance a.strides i = distance (columnMajorStrides a.itemsize a.shape) i := by
  unfold IsColumnMajor
  simp only [getElem?_indices]
  constructor
  · intro hall i hi
    have hat := hall _ i.reverse ⟨inBounds_reverse.2 hi, rfl⟩
    rw [List.reverse_reverse] at hat
    rw [← h.byteOffset_eq_distance hi, hat, Nat.mul_comm, distance_columnMajorStrides hi]
  · rintro hall _ i ⟨hi, rfl⟩
    have hi' : inBounds a.shape i.reverse = true := by
      rw [← inBounds_reverse, List.reverse_reverse]
      exact hi
    have hdistance := (h.byteOffset_eq_distance hi').trans
      ((hall _ hi').trans (distance_columnMajorStrides hi'))
    rw [List.reverse_reverse] at hdistance
    rw [Nat.mul_comm]
    exact_mod_cast hdistance

/--
An array is told to be row-major or column-major only where its elements lie so, and exactly there
if also the axes of length 1 have the strides of such an array. Where no axis has length 1, the
order tells all about where the elements lie. The bytes are those of a buffer that can be allocated.
-/
theorem order_tells_contiguity (h : Reachable a) (hne : a.isEmpty = false)
    (hsize : a.data.size < 2 ^ (63 : Nat)) :
    (a.order = .rowMajor ↔ a.IsRowMajor ∧ ∀ k < a.rank, a.shape.getD k 0 = 1 →
      a.strides.getD k 0 = (rowMajorStrides a.itemsize a.shape).getD k 0) ∧
    (a.order = .columnMajor ↔ a.order ≠ .rowMajor ∧ a.IsColumnMajor ∧
      ∀ k < a.rank, a.shape.getD k 0 = 1 →
        a.strides.getD k 0 = (columnMajorStrides a.itemsize a.shape).getD k 0) ∧
    ((∀ d ∈ a.shape, d ≠ 1) →
      (a.order = .rowMajor ↔ a.IsRowMajor) ∧
      (a.order = .columnMajor ↔ ¬ a.IsRowMajor ∧ a.IsColumnMajor) ∧
      (a.order = .irregular ↔ ¬ a.IsRowMajor ∧ ¬ a.IsColumnMajor)) := by
  have hgapless := h.gapless
  have hne' : size a.shape ≠ 0 := by simpa [isEmpty] using hne
  obtain ⟨hrowOrder, hcolumnOrder⟩ := hgapless.order_eq_iff hne' hsize
  have hrow := strides_eq_iff hne' hgapless.length (length_rowMajorStrides a.itemsize a.shape)
  have hcolumn := strides_eq_iff hne' hgapless.length
    (length_columnMajorStrides a.itemsize a.shape)
  rw [← hgapless.isRowMajor_iff] at hrow
  rw [← hgapless.isColumnMajor_iff] at hcolumn
  refine ⟨hrowOrder.trans hrow, by rwa [hcolumn] at hcolumnOrder, fun hunit => ?_⟩
  have hnone {strides : List Int} : ∀ k < a.shape.length, a.shape.getD k 0 = 1 →
      a.strides.getD k 0 = strides.getD k 0 := by
    intro k hk hd
    refine absurd hd (hunit _ ?_)
    simp [hk]
  have hrow' : a.order = .rowMajor ↔ a.IsRowMajor := by
    rw [hrowOrder, hrow]
    exact ⟨And.left, fun h => ⟨h, hnone⟩⟩
  have hcolumn' : a.order = .columnMajor ↔ ¬ a.IsRowMajor ∧ a.IsColumnMajor := by
    rw [hcolumnOrder, hcolumn, Ne, hrow']
    exact ⟨fun ⟨hr, hc, _⟩ => ⟨hr, hc⟩, fun ⟨hr, hc⟩ => ⟨hr, hc, hnone⟩⟩
  refine ⟨hrow', hcolumn', ?_⟩
  have hthird : a.order = .irregular ↔ a.order ≠ .rowMajor ∧ a.order ≠ .columnMajor := by
    cases a.order <;> simp
  rw [hthird, Ne, Ne, hcolumn', hrow']
  exact ⟨fun ⟨hr, hc⟩ => ⟨hr, fun h => hc ⟨hr, h⟩⟩, fun ⟨hr, hc⟩ => ⟨hr, fun h => hc h.2⟩⟩

/-- A matrix of three rows that is the transpose of a row-major one. -/
theorem order_tells_contiguity_transposed :
    let b := after (performOn .transpose) (zeros .int32 [2, 3])
    Reachable b ∧ b.isEmpty = false ∧ b.data.size < 2 ^ (63 : Nat) ∧ (∀ d ∈ b.shape, d ≠ 1) ∧
      b.order = .columnMajor ∧ ¬ b.IsRowMajor ∧ b.IsColumnMajor := by
  intro b
  have hb : Reachable b := .performOn _ (.zeros .int32 [2, 3])
  have hunit : ∀ d ∈ b.shape, d ≠ 1 := by decide
  have hsize : b.data.size < 2 ^ (63 : Nat) := by decide
  have hcolumn : b.order = .columnMajor := by decide
  obtain ⟨-, -, hall⟩ := order_tells_contiguity hb (by decide) hsize
  exact ⟨hb, by decide, hsize, hunit, hcolumn, (hall hunit).2.1.1 hcolumn⟩

/-- Where an axis of length 1 is moved, the elements stay in row-major order and the order is
lost. -/
theorem irregular_of_unit_axis :
    let b := after (performOn (.permuteAxes [1, 0, 2])) (zeros .int16 [3, 1, 2])
    Reachable b ∧ b.isEmpty = false ∧ b.data.size = 12 ∧ b.shape = [1, 3, 2] ∧
      b.IsRowMajor ∧ b.order = .irregular := by
  intro b
  have hb : Reachable b := .performOn _ (.zeros .int16 [3, 1, 2])
  have hstrides : ∀ k < b.shape.length, b.shape.getD k 0 ≠ 1 →
      b.strides.getD k 0 = (rowMajorStrides b.itemsize b.shape).getD k 0 := by decide
  have hrow : b.IsRowMajor := by
    rw [hb.gapless.isRowMajor_iff]
    exact (distances_eq_iff (by decide) hb.gapless.length (length_rowMajorStrides ..)).2 hstrides
  exact ⟨hb, by decide, by decide, by decide, hrow, by decide⟩

end NDArray

end Pointwise

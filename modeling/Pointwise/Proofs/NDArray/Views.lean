import Pointwise.Proofs.NDArray.Reachable
import Pointwise.Proofs.Native.Conversion

/-!
# What views and copies show

A view has the elements of its array at other coordinates, and a copy has them at the same ones, in
another type. Views of views are views of the array itself.
-/

namespace Pointwise

open NDArray (inBounds)

/-! ## Lists that name every axis once -/

theorem isPermutation_iff {rank : Nat} {axes : List Nat} :
    NDArray.isPermutation rank axes = true ↔ axes.Perm (List.range rank) := by
  refine ⟨perm_of_isPermutation, fun h => ?_⟩
  have hnodup : axes.Nodup := h.nodup_iff.2 List.nodup_range
  have herased : axes.eraseDups.Perm axes := by
    rw [List.perm_ext_iff_of_nodup (nodup_eraseDups axes) hnodup]
    exact fun k => List.mem_eraseDups
  unfold NDArray.isPermutation
  simp only [Bool.and_eq_true, beq_iff_eq, List.all_eq_true, decide_eq_true_eq]
  refine ⟨⟨?_, fun k hk => List.mem_range.1 (h.subset hk)⟩, herased.length_eq⟩
  rw [h.length_eq, List.length_range]

section

variable {n : Nat} {p q j : List Nat}

theorem length_of_perm_range (hp : p.Perm (List.range n)) : p.length = n := by
  rw [hp.length_eq, List.length_range]

theorem map_getD_of_length {α : Type} {l : List α} (h : l.length = n) (x : α) :
    (List.range n).map (l.getD · x) = l := by
  rw [← h]
  exact map_getD_range l x

theorem map_eq_map_range {α : Type} (hp : p.length = n) (f : Nat → α) :
    p.map f = (List.range n).map fun k => f (p.getD k 0) := by
  conv => lhs; rw [← map_getD_of_length hp 0, List.map_map]
  rfl

theorem exists_of_perm_range (hp : p.Perm (List.range n)) {m : Nat} (hm : m < n) :
    ∃ k < n, p.getD k 0 = m := by
  obtain ⟨k, hk, rfl⟩ := List.getElem_of_mem (hp.symm.subset (List.mem_range.2 hm))
  exact ⟨k, length_of_perm_range hp ▸ hk, by simp [hk]⟩

theorem perm_composed (hp : p.Perm (List.range n)) (hq : q.Perm (List.range n)) :
    (q.map (p.getD · 0)).Perm (List.range n) := by
  have hmap := hq.map (p.getD · 0)
  rw [map_getD_of_length (length_of_perm_range hp)] at hmap
  exact hmap.trans hp

theorem map_getD_composed {α : Type} (l : List α) (x : α) (hp : p.Perm (List.range n))
    (hq : q.Perm (List.range n)) :
    q.map ((p.map (l.getD · x)).getD · x) = (q.map (p.getD · 0)).map (l.getD · x) := by
  rw [List.map_map]
  apply List.map_congr_left
  intro k hk
  have hkp : k < p.length := by
    rw [length_of_perm_range hp]
    exact List.mem_range.1 (hq.subset hk)
  simp [hkp]

/-- The list whose entry at each `p[k]` is the `k`-th one given. -/
def unpermute (p j : List Nat) : List Nat := (List.range p.length).map fun m => j.getD (p.idxOf m) 0

@[simp] theorem length_unpermute (p j : List Nat) : (unpermute p j).length = p.length := by
  simp [unpermute]

theorem getD_unpermute (hp : p.Perm (List.range n)) {k : Nat} (hk : k < n) :
    (unpermute p j).getD (p.getD k 0) 0 = j.getD k 0 := by
  have hlen := length_of_perm_range hp
  have hkp : k < p.length := hlen ▸ hk
  have hget : p.getD k 0 = p[k] := by simp [hkp]
  have hlt : p[k] < p.length := by
    rw [hlen]
    exact List.mem_range.1 (hp.subset (List.getElem_mem hkp))
  have hnodup : p.Nodup := hp.nodup_iff.2 List.nodup_range
  rw [hget]
  simp [unpermute, hlt, hnodup.idxOf_getElem k hkp]

theorem eq_unpermute {i : List Nat} (hp : p.Perm (List.range n)) (hi : i.length = n)
    (h : ∀ k < n, i.getD (p.getD k 0) 0 = j.getD k 0) : i = unpermute p j := by
  have hlen : (unpermute p j).length = n := by rw [length_unpermute, length_of_perm_range hp]
  rw [← map_getD_of_length hi 0, ← map_getD_of_length hlen 0]
  apply List.map_congr_left
  intro m hm
  obtain ⟨k, hk, rfl⟩ := exists_of_perm_range hp (List.mem_range.1 hm)
  rw [h k hk, getD_unpermute hp hk]

theorem perm_inverse (hp : p.Perm (List.range n)) (hq : q.length = n)
    (h : ∀ k < n, q.getD (p.getD k 0) 0 = k) :
    q.Perm (List.range n) ∧ q.map (p.getD · 0) = List.range n := by
  constructor
  · have hmap : p.map (q.getD · 0) = List.range n := by
      rw [map_eq_map_range (length_of_perm_range hp)]
      conv => rhs; rw [← List.map_id (List.range n)]
      exact List.map_congr_left fun k hk => h k (List.mem_range.1 hk)
    have hperm := hp.map (q.getD · 0)
    rw [hmap, map_getD_of_length hq] at hperm
    exact hperm.symm
  · rw [map_eq_map_range hq]
    conv => rhs; rw [← List.map_id (List.range n)]
    apply List.map_congr_left
    intro m hm
    obtain ⟨k, hk, rfl⟩ := exists_of_perm_range hp (List.mem_range.1 hm)
    rw [h k hk, id]

theorem exists_inverse (hp : p.Perm (List.range n)) :
    ∃ q : List Nat, q.length = n ∧ ∀ k < n, q.getD (p.getD k 0) 0 = k := by
  refine ⟨unpermute p (List.range n), ?_, fun k hk => ?_⟩
  · rw [length_unpermute, length_of_perm_range hp]
  · rw [getD_unpermute hp hk]
    simp [hk]

end

/-! ## Distances in a view -/

theorem distance_map (l : List Nat) (f : Nat → Nat) (g : Nat → Int) :
    distance (l.map g) (l.map f) = (l.map fun m => (f m : Int) * g m).sum := by
  unfold distance
  rw [List.zipWith_map, List.zipWith_self]

theorem distance_permuted {n : Nat} {p j : List Nat} {strides : List Int}
    (hp : p.Perm (List.range n)) (hstrides : strides.length = n) (hj : j.length = n) :
    distance (p.map (strides.getD · 0)) j = distance strides (unpermute p j) := by
  have hlen : (unpermute p j).length = n := by rw [length_unpermute, length_of_perm_range hp]
  have hview : j = p.map ((unpermute p j).getD · 0) := by
    rw [map_eq_map_range (length_of_perm_range hp)]
    conv => lhs; rw [← map_getD_of_length hj 0]
    exact List.map_congr_left fun k hk => (getD_unpermute hp (List.mem_range.1 hk)).symm
  conv => lhs; rw [hview, distance_map]
  conv => rhs; rw [← map_getD_of_length hstrides 0, ← map_getD_of_length hlen 0, distance_map]
  exact (hp.map _).sum_eq

namespace NDArray

variable {a b : NDArray} {p q i j : List Nat} {t : DType}

/-! ## Views -/

/-- The array with its axes in another order. -/
def permuted (a : NDArray) (p : List Nat) : NDArray :=
  { a with shape := p.map (a.shape.getD · 0), strides := p.map (a.strides.getD · 0) }

theorem permuteAxes_of_perm (hp : p.Perm (List.range a.rank)) :
    a.permuteAxes p = .ok (a.permuted p) := by
  unfold permuteAxes
  rw [if_pos (isPermutation_iff.2 hp)]
  rfl

theorem permuteAxes_of_not_perm (hp : ¬ p.Perm (List.range a.rank)) :
    a.permuteAxes p = .error (.invalidOperand (.notAPermutation p)) := by
  unfold permuteAxes
  rw [if_neg fun h => hp (isPermutation_iff.1 h)]

theorem permuteAxes_eq_ok :
    a.permuteAxes p = .ok b ↔ p.Perm (List.range a.rank) ∧ a.permuted p = b := by
  by_cases hp : p.Perm (List.range a.rank)
  · simp [permuteAxes_of_perm hp, hp]
  · simp [permuteAxes_of_not_perm hp, hp]

theorem rank_permuted (hp : p.Perm (List.range a.rank)) : (a.permuted p).rank = a.rank := by
  simp [rank, permuted, length_of_perm_range hp]

theorem inBounds_permuted (hp : p.Perm (List.range a.rank)) (hj : j.length = a.rank) :
    inBounds (a.permuted p).shape j = true ↔ inBounds a.shape (unpermute p j) = true := by
  have hlen := length_of_perm_range hp
  have hshape {k : Nat} (hk : k < a.rank) :
      (a.permuted p).shape.getD k 0 = a.shape.getD (p.getD k 0) 0 := by
    have hkp : k < p.length := hlen ▸ hk
    simp [permuted, hkp]
  rw [inBounds_iff, inBounds_iff, length_unpermute, hlen, hj]
  rw [show (a.permuted p).shape.length = a.rank from rank_permuted hp]
  refine ⟨fun ⟨_, h⟩ => ⟨rfl, fun m hm => ?_⟩, fun ⟨_, h⟩ => ⟨rfl, fun k hk => ?_⟩⟩
  · obtain ⟨k, hk, rfl⟩ := exists_of_perm_range hp hm
    rw [getD_unpermute hp hk, ← hshape hk]
    exact h k hk
  · have hlt : p.getD k 0 < a.rank := by
      have hkp : k < p.length := hlen ▸ hk
      have hmem : p.getD k 0 ∈ p := by simp [hkp]
      exact List.mem_range.1 (hp.subset hmem)
    rw [hshape hk, ← getD_unpermute hp hk]
    exact h _ hlt

theorem element_permuted (ha : a.strides.length = a.shape.length)
    (hp : p.Perm (List.range a.rank)) (hj : j.length = a.rank) :
    (a.permuted p).element j = a.element (unpermute p j) := by
  have hdistance := distance_permuted hp ha hj
  have hoffset : (a.permuted p).byteOffset j = a.byteOffset (unpermute p j) :=
    congrArg Int.toNat hdistance
  unfold element
  rw [hoffset]
  rfl

theorem permuted_permuted (hp : p.Perm (List.range a.rank)) (hq : q.Perm (List.range a.rank)) :
    (a.permuted p).permuted q = a.permuted (q.map (p.getD · 0)) := by
  unfold permuted
  rw [map_getD_composed a.shape 0 hp hq, map_getD_composed a.strides 0 hp hq]

theorem permuted_range (ha : a.strides.length = a.shape.length) :
    a.permuted (List.range a.rank) = a := by
  unfold permuted
  rw [map_getD_of_length (n := a.rank) rfl, map_getD_of_length (n := a.rank) ha]

theorem permuted_reverse (ha : a.strides.length = a.shape.length) :
    a.permuted (List.range a.rank).reverse = a.transpose := by
  unfold permuted transpose
  rw [List.map_reverse, List.map_reverse, map_getD_of_length (n := a.rank) rfl,
    map_getD_of_length (n := a.rank) ha]

/-! ## Copies -/

theorem get_astype (a : NDArray) (t : DType) (i : List Nat) :
    (a.astype t).get i = (a.get i).map (·.cast t) := by
  unfold NDArray.get
  rw [a.shape_astype]
  by_cases hi : inBounds a.shape i = true
  · rw [if_pos hi, if_pos hi, element_astype hi]
    rfl
  · rw [if_neg hi, if_neg hi]
    rfl

theorem toScalars_astype (a : NDArray) (t : DType) :
    (a.astype t).toScalars = a.toScalars.map (·.cast t) := by
  unfold toScalars
  rw [a.shape_astype, List.map_map]
  exact List.map_congr_left fun i hi => element_astype (mem_indices.1 hi)

theorem toScalarsAs_eq (a : NDArray) (t : DType) : a.toScalarsAs t = (a.astype t).toScalars := by
  rw [a.toScalars_astype t]
  exact List.map_congr_left fun s _ => s.valueAs_eq_cast t

theorem toScalars_ofScalars {shape : List Nat} {values : List Scalar}
    (h : ofScalars t shape values = .ok a) : a.toScalars = values.map (·.cast t) := by
  unfold ofScalars at h
  split at h
  case isTrue => cases h
  case isFalse hlen =>
    cases h
    replace hlen := (not_not.1 hlen).symm
    have helements : ∀ i ∈ indices shape, element (rowMajor t shape
        (values.flatMap fun v => (v.cast t).toBytes)) i =
          (values.getD (flatIndex shape i) (Scalar.zero t)).cast t := by
      intro i hi
      rw [List.flatMap_def]
      exact element_rowMajor hlen (mem_indices.1 hi) _
    calc (indices shape).map _
        = ((indices shape).map (flatIndex shape)).map fun n =>
            (values.getD n (Scalar.zero t)).cast t := by
          rw [List.map_map]
          exact List.map_congr_left helements
      _ = ((List.range values.length).map (values.getD · (Scalar.zero t))).map (·.cast t) := by
          rw [map_flatIndex_indices, hlen, List.map_map]
          rfl
      _ = values.map (·.cast t) := by rw [map_getD_range]

theorem ofScalars_eq_ok {shape : List Nat} {values : List Scalar}
    (h : size shape = values.length) : ∃ b, ofScalars t shape values = .ok b := by
  unfold ofScalars
  rw [if_neg (not_not.2 h)]
  exact ⟨_, rfl⟩

/-! ## All views and copies -/

/--
Exactly the permutations of the axes make views. An element of a view is the one of the array whose
place along the axis `p[k]` is its own along the axis `k`. A view of a view takes its axes from
where the first one took them, so that going back gives the array itself, and the transpose is the
view with the axes in reverse. A copy has the elements converted, in row-major order, and its values
are those that each element is on its own. An array of given values has these values, converted.
-/
theorem views_and_copies (h : Reachable a) :
    (∀ p, (∃ b, a.permuteAxes p = .ok b) ↔ p.Perm (List.range a.rank)) ∧
    (∀ p b, a.permuteAxes p = .ok b →
      b.dtype = a.dtype ∧ b.shape = p.map (a.shape.getD · 0) ∧
      (∀ j, inBounds b.shape j = true → ∃ i, inBounds a.shape i = true ∧
        (∀ k < a.rank, i.getD (p.getD k 0) 0 = j.getD k 0) ∧ b.get j = a.get i ∧
        ∀ i' : List Nat, i'.length = a.rank →
          (∀ k < a.rank, i'.getD (p.getD k 0) 0 = j.getD k 0) → i' = i) ∧
      (∀ q, q.Perm (List.range a.rank) → b.permuteAxes q = a.permuteAxes (q.map (p.getD · 0))) ∧
      (∃ q : List Nat, q.length = a.rank ∧ ∀ k < a.rank, q.getD (p.getD k 0) 0 = k) ∧
      ∀ q : List Nat, q.length = a.rank → (∀ k < a.rank, q.getD (p.getD k 0) 0 = k) →
        b.permuteAxes q = .ok a) ∧
    a.permuteAxes (List.range a.rank).reverse = .ok a.transpose ∧
    (∀ t, (a.astype t).dtype = t ∧ (a.astype t).shape = a.shape ∧
      (a.astype t).strides = rowMajorStrides t.itemsize a.shape ∧
      (∀ i, (a.astype t).get i = (a.get i).map (·.cast t)) ∧
      a.toScalarsAs t = (a.astype t).toScalars) ∧
    ∀ t shape values, size shape = values.length →
      ∃ b, ofScalars t shape values = .ok b ∧ b.toScalars = values.map (·.cast t) := by
  have hlength := h.gapless.length
  refine ⟨?exactly, ?view, ?transpose, ?copy, ?given⟩
  case exactly =>
    intro p
    simp only [permuteAxes_eq_ok]
    exact ⟨fun ⟨_, hp, _⟩ => hp, fun hp => ⟨_, hp, rfl⟩⟩
  case view =>
    intro p b hb
    obtain ⟨hp, rfl⟩ := permuteAxes_eq_ok.1 hb
    have hrank := rank_permuted hp
    refine ⟨rfl, rfl, fun j hj => ?_, fun q hq => ?_, exists_inverse hp, fun q hq hback => ?_⟩
    · have hjlen : j.length = a.rank := (length_of_inBounds hj).trans hrank
      have hi := (inBounds_permuted hp hjlen).1 hj
      refine ⟨unpermute p j, hi, fun k hk => getD_unpermute hp hk, ?_, fun i' => eq_unpermute hp⟩
      unfold NDArray.get
      rw [if_pos hj, if_pos hi, element_permuted hlength hp hjlen]
    · rw [permuteAxes_of_perm (hrank.symm ▸ hq), permuteAxes_of_perm (perm_composed hp hq),
        permuted_permuted hp hq]
    · obtain ⟨hqperm, hqback⟩ := perm_inverse hp hq hback
      rw [permuteAxes_of_perm (hrank.symm ▸ hqperm), permuted_permuted hp hqperm, hqback,
        permuted_range hlength]
  case transpose =>
    rw [permuteAxes_of_perm (List.reverse_perm _), permuted_reverse hlength]
  case copy =>
    intro t
    have hstrides := (a.contiguous_astype t).strides
    rw [itemsize, a.dtype_astype, a.shape_astype] at hstrides
    exact ⟨a.dtype_astype t, a.shape_astype t, hstrides, a.get_astype t, a.toScalarsAs_eq t⟩
  case given =>
    intro t shape values hsize
    obtain ⟨b, hb⟩ := ofScalars_eq_ok (t := t) hsize
    exact ⟨b, hb, toScalars_ofScalars hb⟩

/-- The axes of the turned array go back by the other turn, and not by the same one again. -/
theorem views_and_copies_turned :
    Reachable turned ∧ turned.shape = [2, 3, 1] ∧
      (∃ b, turned.permuteAxes [2, 0, 1] = .ok b ∧ b.shape = [1, 2, 3] ∧
        b.get [0, 1, 2] = .ok (.ofInt (-7) .int16) ∧ b.permuteAxes [1, 2, 0] = .ok turned ∧
        b.permuteAxes [2, 0, 1] = turned.permuteAxes [1, 2, 0]) ∧
      (turned.astype .uint8).get [1, 2, 0] = .ok (.ofInt 249 .uint8) := by
  have hturned : Reachable turned := .performOn _ (.performOn _ (.zeros .int16 [3, 1, 2]))
  obtain ⟨hexactly, hview, -, hcopy, -⟩ := views_and_copies hturned
  obtain ⟨b, hb⟩ := (hexactly [2, 0, 1]).2 (by decide)
  obtain ⟨-, hshape, helement, hcomposed, -, hback⟩ := hview _ b hb
  have hsame := hcomposed [2, 0, 1] (by decide)
  refine ⟨hturned, by decide, ⟨b, hb, hshape, ?_, hback [1, 2, 0] rfl (by decide), hsame⟩, ?_⟩
  · obtain ⟨i, -, -, hget, hunique⟩ := helement [0, 1, 2] (by rw [hshape]; decide)
    rw [hget, ← hunique [1, 2, 0] rfl (by decide)]
    decide
  · rw [(hcopy .uint8).2.2.2.1]
    decide

end NDArray

end Pointwise

import Pointwise.Proofs.Broadcast.Shapes
import Pointwise.Proofs.NDArray.Store

/-!
# Filling an array

Every coordinate of the common shape lies over one of each operand, and an array that is filled
holds the result for each of its coordinates, unless one fails. Then the first one that fails counts.
-/

namespace Pointwise

open NDArray (inBounds)

namespace Broadcast

/-! ## Coordinates of operands -/

/--
The coordinate under one of the common shape: the last axes of both go together, and an axis of
length 1 has only one place.
-/
def alignedIndex (shape index : List Nat) : List Nat :=
  (List.range shape.length).map fun k =>
    if shape.getD k 0 = 1 then 0 else index.getD (index.length - shape.length + k) 0

theorem sourceIndex_eq_alignedIndex {shape index : List Nat} (h : shape.length ≤ index.length) :
    sourceIndex index shape = alignedIndex shape index := by
  unfold sourceIndex alignedIndex
  apply List.ext_getElem?
  intro k
  rw [List.getElem?_zipWith, List.getElem?_drop, List.getElem?_map]
  by_cases hk : k < shape.length
  · rw [List.getElem?_range hk, List.getElem?_eq_getElem hk,
      List.getElem?_eq_getElem (l := index) (by omega)]
    have hk' : index.length - shape.length + k < index.length := by omega
    simp [List.getD_eq_getElem?_getD, hk, hk']
  · rw [List.getElem?_eq_none (l := shape) (by omega),
      List.getElem?_eq_none (l := List.range _) (by rw [List.length_range]; omega)]
    rfl

theorem inBounds_sourceIndex {shape out index : List Nat} (hlen : shape.length ≤ out.length)
    (hdim : ∀ k, Stretches (dim shape k) (dim out k)) (hindex : inBounds out index = true) :
    inBounds shape (sourceIndex index shape) = true := by
  induction out generalizing shape index with
  | nil =>
    cases shape with
    | nil => rfl
    | cons d ds => cases hlen
  | cons o os ih =>
    cases index with
    | nil => cases hindex
    | cons i is =>
      obtain ⟨hi, his⟩ := inBounds_cons.1 hindex
      have hisl := length_of_inBounds his
      by_cases hlt : shape.length ≤ os.length
      · -- The first axis of the common shape is one that the operand does not have.
        have hdim' : ∀ k, Stretches (dim shape k) (dim os k) := by
          intro k
          by_cases hk : k = os.length
          · exact .inl (dim_of_length_le (by omega))
          · exact dim_cons_of_ne hk ▸ hdim k
        have hrest := ih hlt hdim' his
        unfold sourceIndex at hrest ⊢
        rwa [List.length_cons, hisl, Nat.succ_sub hlt, List.drop_succ_cons, ← hisl]
      · cases shape with
        | nil => simp at hlt
        | cons d ds =>
          have hds : ds.length = os.length := by
            simp only [List.length_cons] at hlen hlt
            omega
          obtain ⟨hd, hdim'⟩ := forall_dim_cons (.inl rfl) hds hdim
          have hrest := ih (Nat.le_of_eq hds) hdim' his
          unfold sourceIndex at hrest ⊢
          rw [List.length_cons, List.length_cons, hisl, hds, Nat.sub_self, List.drop_zero,
            List.zipWith_cons_cons, inBounds_cons]
          rw [hisl, hds, Nat.sub_self, List.drop_zero] at hrest
          refine ⟨?_, hrest⟩
          split
          next h => omega
          next h =>
            rcases hd with h' | h'
            · exact absurd h' h
            · omega

theorem length_sourceIndex {shape index : List Nat} (h : shape.length ≤ index.length) :
    (sourceIndex index shape).length = shape.length := by
  simp [sourceIndex]
  omega

theorem getElem_sourceIndex {shape index : List Nat} {k : Nat} (h : shape.length ≤ index.length)
    (hk : k < shape.length) (hsource : k < (sourceIndex index shape).length) :
    (sourceIndex index shape)[k] =
      if shape[k] = 1 then 0 else index[index.length - shape.length + k] := by
  simp [sourceIndex]

theorem sourceIndex_self {shape index : List Nat} (h : inBounds shape index = true) :
    sourceIndex index shape = index := by
  unfold sourceIndex
  rw [length_of_inBounds h, Nat.sub_self, List.drop_zero]
  induction shape generalizing index with
  | nil => rw [List.eq_nil_of_length_eq_zero (length_of_inBounds h)]; rfl
  | cons d ds ih =>
    cases index with
    | nil => cases h
    | cons i is =>
      obtain ⟨hi, his⟩ := inBounds_cons.1 h
      rw [List.zipWith_cons_cons, ih his]
      split
      · rw [show i = 0 by omega]
      · rfl

theorem sourceIndex_sourceIndex {shape between index : List Nat}
    (hlen : shape.length ≤ between.length) (hindex : between.length ≤ index.length)
    (hdim : ∀ k, Stretches (dim shape k) (dim between k)) :
    sourceIndex (sourceIndex index between) shape = sourceIndex index shape := by
  have hbetween := length_sourceIndex hindex
  have hlen' : shape.length ≤ (sourceIndex index between).length := by omega
  apply List.ext_getElem
  · rw [length_sourceIndex hlen', length_sourceIndex (by omega)]
  intro k hk _
  rw [length_sourceIndex hlen'] at hk
  rw [getElem_sourceIndex hlen' hk, getElem_sourceIndex (by omega) hk]
  by_cases hone : shape[k] = 1
  · rw [if_pos hone, if_pos hone]
  · -- An axis that is not stretched is as long as the one between.
    have hkb : between.length - shape.length + k < between.length := by omega
    have haxis : shape[k] = between[between.length - shape.length + k] := by
      have hstretch := hdim (shape.length - 1 - k)
      rw [dim_eq_getElem hk, show shape.length - 1 - k =
        between.length - 1 - (between.length - shape.length + k) by omega,
        dim_eq_getElem hkb] at hstretch
      exact hstretch.resolve_left hone
    simp only [hbetween]
    rw [if_neg hone, if_neg hone, getElem_sourceIndex hindex hkb, if_neg (haxis ▸ hone)]
    congr 1
    omega

/-! ## Filling -/

theorem fill_eq_putAll {inputs : List Operand} (out : NDArray) {f : List Scalar → Except Error Scalar}
    (h : IsJoin (inputs.map Operand.shape) out.shape) :
    fill inputs out f =
      out.putAll (fun index => f (inputs.map (valueAt index))) (indices out.shape) := by
  unfold fill operands
  rw [shapes_of_isJoin h, ok_bind, shapes_of_isJoin (isJoin_self out.shape), ok_bind, if_neg (by simp)]
  rfl

end Broadcast

end Pointwise

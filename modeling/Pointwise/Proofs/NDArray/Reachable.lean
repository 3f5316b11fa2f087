import Pointwise.Proofs.NDArray.Gapless
import Pointwise.Proofs.Stateful

/-!
# The arrays that can come about

An array is made of zeros, of one value or of given ones, and operations change it one after the
other. None of them leaves a gap, so every element has bytes of its own, and storing an element
changes no other.
-/

namespace Pointwise

open Stateful

theorem inBounds_iff {shape index : List Nat} :
    NDArray.inBounds shape index = true ↔
      index.length = shape.length ∧ ∀ k < shape.length, index.getD k 0 < shape.getD k 0 := by
  induction shape generalizing index with
  | nil => cases index <;> simp [NDArray.inBounds]
  | cons d ds ih =>
    cases index with
    | nil => simp [NDArray.inBounds]
    | cons i is =>
      rw [inBounds_cons, ih, List.length_cons, List.length_cons, Nat.succ_inj]
      constructor
      · rintro ⟨hi, hlen, his⟩
        refine ⟨hlen, fun k hk => ?_⟩
        cases k with
        | zero => exact hi
        | succ k => exact his k (Nat.lt_of_succ_lt_succ hk)
      · rintro ⟨hlen, hall⟩
        exact ⟨hall 0 (Nat.succ_pos _), hlen, fun k hk => hall (k + 1) (Nat.succ_lt_succ hk)⟩

namespace NDArray

variable {a b : NDArray} {op : ArrayOperation} {i j : List Nat} {v : Scalar} {e : Error}

/-! ## One operation -/

@[simp] theorem answer_performOn (op : ArrayOperation) (a : NDArray) :
    answer (performOn op) a = (a.apply op).map fun _ => ⟨⟩ := by
  unfold performOn
  cases hop : a.apply op <;> simp [hop]

theorem after_performOn_ok (h : a.apply op = .ok b) : after (performOn op) a = b := by
  simp [performOn, h]

theorem after_performOn_error (h : a.apply op = .error e) : after (performOn op) a = a := by
  simp [performOn, h]

theorem contiguous_ofScalars {t : DType} {shape : List Nat} {values : List Scalar}
    (h : ofScalars t shape values = .ok a) : a.Contiguous := by
  unfold ofScalars at h
  split at h
  case isTrue => cases h
  case isFalse hlen =>
    cases h
    apply contiguous_rowMajor
    simp [not_not.1 hlen, Nat.mul_comm]

theorem astype_eq_putAll (a : NDArray) (t : DType) :
    (zeros t a.shape).putAll (fun index => .ok (a.element index)) (indices a.shape) =
      .ok (a.astype t) := putAll_ok ..

theorem contiguous_astype (a : NDArray) (t : DType) : (a.astype t).Contiguous :=
  (putAll_indices_eq_ok (contiguous_zeros t a.shape) (a.astype_eq_putAll t)).1

theorem shape_astype (a : NDArray) (t : DType) : (a.astype t).shape = a.shape :=
  (putAll_indices_eq_ok (contiguous_zeros t a.shape) (a.astype_eq_putAll t)).2.2.1

theorem dtype_astype (a : NDArray) (t : DType) : (a.astype t).dtype = t :=
  (putAll_indices_eq_ok (contiguous_zeros t a.shape) (a.astype_eq_putAll t)).2.1

theorem element_astype {t : DType} (hi : inBounds a.shape i = true) :
    (a.astype t).element i = (a.element i).cast t := by
  obtain ⟨-, -, -, hall⟩ :=
    putAll_indices_eq_ok (contiguous_zeros t a.shape) (a.astype_eq_putAll t)
  obtain ⟨v, hv, helement⟩ := hall i hi
  cases hv
  exact helement

theorem Gapless.apply (h : a.Gapless) (hb : a.apply op = .ok b) : b.Gapless := by
  cases op with
  | permuteAxes axes => exact h.permuteAxes hb
  | transpose =>
    cases hb
    exact h.transpose
  | astype t =>
    cases hb
    exact (a.contiguous_astype t).gapless
  | set index value =>
    simp only [NDArray.apply, NDArray.set] at hb
    split at hb
    · cases hb
      exact h.put index value
    · cases hb

theorem Gapless.after_performOn (h : a.Gapless) (op : ArrayOperation) :
    (after (performOn op) a).Gapless := by
  cases hop : a.apply op with
  | ok b =>
    rw [after_performOn_ok hop]
    exact h.apply hop
  | error e =>
    rw [after_performOn_error hop]
    exact h

/-! ## All arrays -/

inductive Reachable : NDArray → Prop where
  | zeros (t : DType) (shape : List Nat) : Reachable (zeros t shape)
  | full (t : DType) (shape : List Nat) (v : Scalar) : Reachable (full t shape v)
  | ofScalars {t : DType} {shape : List Nat} {values : List Scalar} {a : NDArray} :
      ofScalars t shape values = .ok a → Reachable a
  | performOn {a : NDArray} (op : ArrayOperation) :
      Reachable a → Reachable (after (performOn op) a)

theorem Reachable.gapless (h : Reachable a) : a.Gapless := by
  induction h with
  | zeros t shape => exact (contiguous_zeros t shape).gapless
  | full t shape v => exact (contiguous_full t shape v).gapless
  | ofScalars h => exact (contiguous_ofScalars h).gapless
  | performOn op _ ih => exact ih.after_performOn op

/-! ## Storing an element -/

theorem Gapless.get_put (h : a.Gapless) (hi : inBounds a.shape i = true) (j : List Nat) :
    (a.put i v).get j = if j = i then .ok (v.cast a.dtype) else a.get j := by
  unfold NDArray.get
  rw [shape_put]
  by_cases hj : inBounds a.shape j = true
  · rw [if_pos hj, if_pos hj, h.separate.element_put hi hj]
    by_cases hij : i = j
    · rw [if_pos hij, if_pos hij.symm]
    · rw [if_neg hij, if_neg (Ne.symm hij)]
  · have hij : j ≠ i := by
      rintro rfl
      exact hj hi
    rw [if_neg hj, if_neg hj, if_neg hij]

theorem apply_set (a : NDArray) (i : List Nat) (v : Scalar) :
    a.apply (.set i v) = if inBounds a.shape i then .ok (a.put i v)
      else .error (.invalidOperand (.outOfBounds i a.shape)) := rfl

/-- The elements lie at all multiples of the element size, each at its own, and storing one changes
that one only. -/
theorem bijOn_byteOffset_and_set (h : Reachable a) :
    Set.BijOn a.byteOffset {i | inBounds a.shape i = true}
        {n | a.itemsize ∣ n ∧ n < a.data.size} ∧
      (∀ i, inBounds a.shape i = true →
        (a.byteOffset i : Int) = distance a.strides i ∧
          a.byteOffset i + a.itemsize ≤ a.data.size) ∧
      (∀ i j, inBounds a.shape i = true → inBounds a.shape j = true → i ≠ j →
        a.byteOffset j + a.itemsize ≤ a.byteOffset i ∨
          a.byteOffset i + a.itemsize ≤ a.byteOffset j) ∧
      ∀ i v b, after (performOn (.set i v)) a = b →
        (answer (performOn (.set i v)) a = .ok ⟨⟩ ↔
          i.length = a.rank ∧ ∀ k < a.rank, i.getD k 0 < a.shape.getD k 0) ∧
        (answer (performOn (.set i v)) a = .ok ⟨⟩ →
          b.dtype = a.dtype ∧ b.shape = a.shape ∧ b.strides = a.strides ∧
            b.data.size = a.data.size ∧
            ∀ j, b.get j = if j = i then .ok (v.cast a.dtype) else a.get j) ∧
        ∀ e, answer (performOn (.set i v)) a = .error e → b = a := by
  have hgapless := h.gapless
  refine ⟨hgapless.bijOn_byteOffset, ?_, ?_, ?_⟩
  · exact fun i hi => ⟨hgapless.byteOffset_eq_distance hi, hgapless.byteOffset_le hi⟩
  · exact fun i j hi hj hne => hgapless.apart hi hj hne
  rintro i v _ rfl
  rw [show a.rank = a.shape.length from rfl, ← inBounds_iff, answer_performOn]
  by_cases hi : inBounds a.shape i = true
  case pos =>
    have hset : a.apply (.set i v) = .ok (a.put i v) := by rw [apply_set, if_pos hi]
    rw [hset, after_performOn_ok hset]
    exact ⟨⟨fun _ => hi, fun _ => rfl⟩, fun _ => ⟨rfl, rfl, rfl, size_put, hgapless.get_put hi⟩, nofun⟩
  case neg =>
    have hset := a.apply_set i v
    rw [if_neg hi] at hset
    rw [hset, after_performOn_error hset]
    exact ⟨⟨nofun, fun h => absurd h hi⟩, nofun, fun _ _ => rfl⟩

/-- Three rows of two elements with an axis of length 1 between, after which the axes go round. -/
def turned : NDArray :=
  after (performOn (.permuteAxes [2, 0, 1]))
    (after (performOn (.set [2, 0, 1] (.ofInt (-7) .int64))) (zeros .int16 [3, 1, 2]))

theorem bijOn_byteOffset_and_set_turned :
    Reachable turned ∧ turned.shape = [2, 3, 1] ∧ turned.strides = [2, 4, 4] ∧
      Set.BijOn turned.byteOffset {i | inBounds turned.shape i = true}
        {n | turned.itemsize ∣ n ∧ n < turned.data.size} ∧
      turned.get [1, 2, 0] = .ok (.ofInt (-7) .int16) ∧
      (after (performOn (.set [0, 2, 0] (.ofInt 5 .int64))) turned).get [1, 2, 0] =
        .ok (.ofInt (-7) .int16) := by
  have hturned : Reachable turned := .performOn _ (.performOn _ (.zeros .int16 [3, 1, 2]))
  obtain ⟨hbij, -, -, hset⟩ := bijOn_byteOffset_and_set hturned
  obtain ⟨-, hstored, -⟩ := hset [0, 2, 0] (.ofInt 5 .int64) _ rfl
  obtain ⟨-, -, -, -, hget⟩ := hstored (by decide)
  have hold : turned.get [1, 2, 0] = .ok (.ofInt (-7) .int16) := by decide
  refine ⟨hturned, by decide, by decide, hbij, hold, ?_⟩
  rw [hget [1, 2, 0], if_neg (by decide), hold]

end NDArray

end Pointwise

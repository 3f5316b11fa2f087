import Pointwise.NDArray.View
import Pointwise.Proofs.NDArray.Coordinates
import Pointwise.Proofs.Outcome
import Pointwise.Proofs.Scalar.Encoding

/-!
# Reading and writing elements

Bytes that are written are read back, and what lies apart from them is unchanged. In an array
without gaps the elements at different coordinates lie apart.
-/

namespace Pointwise

open NDArray (inBounds)

/-! ## Bytes -/

theorem getElem?_writeBytes (data : Array UInt8) (offset : Nat) (bytes : List UInt8) (i : Nat) :
    (writeBytes data offset bytes)[i]? =
      if offset ≤ i ∧ i < offset + bytes.length ∧ i < data.size then bytes[i - offset]?
      else data[i]? := by
  induction bytes generalizing data offset with
  | nil =>
    rw [writeBytes, if_neg]
    simp only [List.length_nil, Nat.add_zero]
    omega
  | cons b bs ih =>
    rw [writeBytes, ih, Array.size_setIfInBounds, Array.getElem?_setIfInBounds, List.length_cons]
    by_cases hi : offset = i
    · -- The first byte is not overwritten by those after it.
      subst hi
      rw [if_neg (by omega), if_pos rfl]
      by_cases hsize : offset < data.size
      · rw [if_pos hsize, if_pos (by omega), Nat.sub_self]
        rfl
      · rw [if_neg hsize, if_neg (by omega), Array.getElem?_eq_none (by omega)]
    · rw [if_neg hi]
      by_cases hin : offset + 1 ≤ i ∧ i < offset + 1 + bs.length ∧ i < data.size
      · rw [if_pos hin, if_pos (by omega), show i - offset = (i - (offset + 1)) + 1 by omega]
        rfl
      · rw [if_neg hin, if_neg (by omega)]

theorem readBytes_eq (data : Array UInt8) (offset count : Nat) :
    readBytes data offset count = (data.toList.drop offset).take count := by
  simp [readBytes, List.extract]

theorem getElem?_readBytes (data : Array UInt8) (offset count i : Nat) :
    (readBytes data offset count)[i]? = if i < count then data[offset + i]? else none := by
  rw [readBytes_eq, List.getElem?_take, List.getElem?_drop, Array.getElem?_toList]

theorem readBytes_writeBytes {data : Array UInt8} {offset : Nat} {bytes : List UInt8}
    (h : offset + bytes.length ≤ data.size) :
    readBytes (writeBytes data offset bytes) offset bytes.length = bytes := by
  apply List.ext_getElem?
  intro i
  rw [getElem?_readBytes, getElem?_writeBytes]
  by_cases hi : i < bytes.length
  · rw [if_pos hi, if_pos (by omega), Nat.add_sub_cancel_left]
  · rw [if_neg hi, List.getElem?_eq_none (by omega)]

theorem readBytes_writeBytes_apart {data : Array UInt8} {offset offset' count : Nat}
    {bytes : List UInt8} (h : offset' + count ≤ offset ∨ offset + bytes.length ≤ offset') :
    readBytes (writeBytes data offset bytes) offset' count = readBytes data offset' count := by
  apply List.ext_getElem?
  intro i
  rw [getElem?_readBytes, getElem?_readBytes]
  by_cases hi : i < count
  · rw [if_pos hi, if_pos hi, getElem?_writeBytes, if_neg (by omega)]
  · rw [if_neg hi, if_neg hi]

namespace NDArray

variable {a : NDArray} {v : Scalar} {offset offset' : Nat}

@[simp] theorem dtype_element (a : NDArray) (index : List Nat) : (a.element index).dtype = a.dtype :=
  Scalar.dtype_ofBytes ..

theorem itemsize_pos (a : NDArray) : 0 < a.itemsize := by
  unfold itemsize
  cases a.dtype <;> decide

theorem readAt_writeAt (h : offset + a.itemsize ≤ a.data.size) :
    (a.writeAt offset v).readAt offset = v.cast a.dtype := by
  have hlen : (v.cast a.dtype).toBytes.length = a.itemsize := by simp [itemsize]
  have hread := @readBytes_writeBytes a.data offset (v.cast a.dtype).toBytes (by rw [hlen]; exact h)
  rw [hlen] at hread
  have hback := (v.cast a.dtype).ofBytes_toBytes
  rw [Scalar.dtype_cast] at hback
  unfold readAt writeAt
  exact (congrArg (Scalar.ofBytes a.dtype) hread).trans hback

theorem readAt_writeAt_apart
    (h : offset' + a.itemsize ≤ offset ∨ offset + a.itemsize ≤ offset') :
    (a.writeAt offset v).readAt offset' = a.readAt offset' := by
  have hlen : (v.cast a.dtype).toBytes.length = a.itemsize := by simp [itemsize]
  unfold readAt writeAt
  exact congrArg (Scalar.ofBytes a.dtype) (readBytes_writeBytes_apart (by rw [hlen]; exact h))

theorem element_put_of_apart {i j : List Nat} (h : a.byteOffset i + a.itemsize ≤ a.data.size)
    (hapart : i ≠ j → a.byteOffset j + a.itemsize ≤ a.byteOffset i ∨
      a.byteOffset i + a.itemsize ≤ a.byteOffset j) :
    (a.put i v).element j = if i = j then v.cast a.dtype else a.element j := by
  unfold element NDArray.put
  by_cases hij : i = j
  · subst hij
    rw [if_pos rfl]
    exact readAt_writeAt h
  · rw [if_neg hij]
    exact readAt_writeAt_apart (hapart hij)

end NDArray

/-! ## Arrays without gaps -/

/-- The place of a coordinate in row-major order. -/
def flatIndex : (shape index : List Nat) → Nat
  | _ :: ds, i :: is => i * size ds + flatIndex ds is
  | _, _ => 0

theorem size_cons (d : Nat) (ds : List Nat) : size (d :: ds) = d * size ds := rfl

theorem flatIndex_lt {shape index : List Nat} (h : NDArray.inBounds shape index = true) :
    flatIndex shape index < size shape := by
  induction shape generalizing index with
  | nil =>
    cases index with
    | nil => decide
    | cons i is => cases h
  | cons d ds ih =>
    cases index with
    | nil => cases h
    | cons i is =>
      obtain ⟨hi, his⟩ := inBounds_cons.1 h
      have hrest := ih his
      have hblock := Nat.mul_le_mul_right (size ds) hi
      rw [Nat.succ_mul] at hblock
      unfold flatIndex
      rw [size_cons]
      omega

theorem flatIndex_inj {shape i j : List Nat} (hi : NDArray.inBounds shape i = true)
    (hj : NDArray.inBounds shape j = true) (h : flatIndex shape i = flatIndex shape j) : i = j := by
  induction shape generalizing i j with
  | nil =>
    have hi0 := length_of_inBounds hi
    have hj0 := length_of_inBounds hj
    rw [List.eq_nil_of_length_eq_zero hi0, List.eq_nil_of_length_eq_zero hj0]
  | cons d ds ih =>
    cases i with
    | nil => cases hi
    | cons i is =>
      cases j with
      | nil => cases hj
      | cons j js =>
        obtain ⟨-, his⟩ := inBounds_cons.1 hi
        obtain ⟨-, hjs⟩ := inBounds_cons.1 hj
        have hi' := flatIndex_lt his
        have hj' := flatIndex_lt hjs
        unfold flatIndex at h
        have hpos : 0 < size ds := Nat.zero_lt_of_lt hi'
        have hij := congrArg (· / size ds) h
        simp only [Nat.mul_comm _ (size ds), Nat.mul_add_div hpos, Nat.div_eq_of_lt hi',
          Nat.div_eq_of_lt hj', Nat.add_zero] at hij
        subst hij
        rw [ih his hjs (Nat.add_left_cancel h)]

theorem span_eq_size {shape index : List Nat} (h : NDArray.inBounds shape index = true) :
    span shape = size shape := by
  induction shape generalizing index with
  | nil => rfl
  | cons d ds ih =>
    cases index with
    | nil => cases h
    | cons i is =>
      obtain ⟨hi, his⟩ := inBounds_cons.1 h
      show max d 1 * span ds = d * size ds
      rw [ih his, Nat.max_eq_left (by omega)]

theorem sum_rowMajorStrides {itemsize : Nat} {shape index : List Nat}
    (h : NDArray.inBounds shape index = true) :
    (List.zipWith (fun (i : Nat) (s : Int) => i * s) index (rowMajorStrides itemsize shape)).sum =
      (itemsize * flatIndex shape index : Nat) := by
  induction shape generalizing index with
  | nil =>
    cases index with
    | nil => rfl
    | cons i is => cases h
  | cons d ds ih =>
    cases index with
    | nil => cases h
    | cons i is =>
      obtain ⟨-, his⟩ := inBounds_cons.1 h
      rw [rowMajorStrides, List.zipWith_cons_cons, List.sum_cons, ih his, span_eq_size his, flatIndex,
        Nat.mul_add, Nat.mul_left_comm, Int.natCast_add, Int.natCast_mul i]

namespace NDArray

variable {a : NDArray} {v : Scalar} {i j : List Nat}

/-- In row-major order, with the bytes of all elements and no others. -/
structure Contiguous (a : NDArray) : Prop where
  strides : a.strides = rowMajorStrides a.itemsize a.shape
  size : a.data.size = a.itemsize * size a.shape

@[simp] theorem dtype_put : (a.put i v).dtype = a.dtype := rfl
@[simp] theorem shape_put : (a.put i v).shape = a.shape := rfl
@[simp] theorem strides_put : (a.put i v).strides = a.strides := rfl
@[simp] theorem itemsize_put : (a.put i v).itemsize = a.itemsize := rfl
@[simp] theorem byteOffset_put : (a.put i v).byteOffset j = a.byteOffset j := rfl

@[simp] theorem size_put : (a.put i v).data.size = a.data.size := by simp [put, writeAt]

/-- Every element has bytes of its own. -/
structure Separate (a : NDArray) : Prop where
  byteOffset_le : ∀ {i}, inBounds a.shape i = true → a.byteOffset i + a.itemsize ≤ a.data.size
  apart : ∀ {i j}, inBounds a.shape i = true → inBounds a.shape j = true → i ≠ j →
    a.byteOffset j + a.itemsize ≤ a.byteOffset i ∨ a.byteOffset i + a.itemsize ≤ a.byteOffset j

theorem Separate.put (h : a.Separate) : (a.put i v).Separate :=
  ⟨fun hj => size_put (a := a) ▸ h.byteOffset_le hj, h.apart⟩

theorem Separate.element_put (h : a.Separate) (hi : inBounds a.shape i = true)
    (hj : inBounds a.shape j = true) :
    (a.put i v).element j = if i = j then v.cast a.dtype else a.element j :=
  element_put_of_apart (h.byteOffset_le hi) (h.apart hi hj)

namespace Contiguous

theorem byteOffset_eq (h : a.Contiguous) (hi : inBounds a.shape i = true) :
    a.byteOffset i = a.itemsize * flatIndex a.shape i := by
  unfold byteOffset
  rw [h.strides, sum_rowMajorStrides hi, Int.toNat_natCast]

theorem byteOffset_le (h : a.Contiguous) (hi : inBounds a.shape i = true) :
    a.byteOffset i + a.itemsize ≤ a.data.size := by
  have hlast := Nat.mul_le_mul_left a.itemsize (flatIndex_lt hi)
  rw [h.byteOffset_eq hi, h.size]
  exact hlast

theorem apart (h : a.Contiguous) (hi : inBounds a.shape i = true) (hj : inBounds a.shape j = true)
    (hne : i ≠ j) :
    a.byteOffset j + a.itemsize ≤ a.byteOffset i ∨ a.byteOffset i + a.itemsize ≤ a.byteOffset j := by
  rw [h.byteOffset_eq hi, h.byteOffset_eq hj]
  rcases Nat.lt_or_gt_of_ne fun heq => hne (flatIndex_inj hi hj heq) with hlt | hgt
  · exact .inr (Nat.mul_le_mul_left a.itemsize hlt)
  · exact .inl (Nat.mul_le_mul_left a.itemsize hgt)

theorem separate (h : a.Contiguous) : a.Separate := ⟨h.byteOffset_le, h.apart⟩

end Contiguous

theorem contiguous_rowMajor {t : DType} {shape : List Nat} {bytes : List UInt8}
    (h : bytes.length = t.itemsize * size shape) : (rowMajor t shape bytes).Contiguous :=
  ⟨rfl, h⟩

theorem contiguous_zeros (t : DType) (shape : List Nat) : (zeros t shape).Contiguous := by
  apply contiguous_rowMajor
  rw [List.length_replicate, Nat.mul_comm]

theorem contiguous_full (t : DType) (shape : List Nat) (v : Scalar) :
    (full t shape v).Contiguous := by
  apply contiguous_rowMajor
  simp [Nat.mul_comm]

theorem readBytes_flatten {pieces : List (List UInt8)} {count k : Nat}
    (hlen : ∀ piece ∈ pieces, piece.length = count) (hk : k < pieces.length) :
    readBytes pieces.flatten.toArray (count * k) count = pieces[k] := by
  rw [readBytes_eq]
  induction pieces generalizing k with
  | nil => cases hk
  | cons piece pieces ih =>
    obtain ⟨rfl, hlen⟩ := List.forall_mem_cons.1 hlen
    rw [List.flatten_cons]
    cases k with
    | zero => simp
    | succ k =>
      have hrest := ih hlen (Nat.lt_of_succ_lt_succ hk)
      rw [Nat.mul_succ, Nat.add_comm, ← List.drop_drop, List.drop_left, List.getElem_cons_succ]
      exact hrest

theorem element_rowMajor {t : DType} {shape : List Nat} {values : List Scalar}
    (hlen : values.length = size shape) (hi : inBounds shape i = true) (v : Scalar) :
    (rowMajor t shape (values.map fun v => (v.cast t).toBytes).flatten).element i =
      (values.getD (flatIndex shape i) v).cast t := by
  have hcont : (rowMajor t shape (values.map fun v => (v.cast t).toBytes).flatten).Contiguous := by
    apply contiguous_rowMajor
    simp [hlen, Nat.mul_comm, List.length_flatten, Function.comp_def]
  have hk : flatIndex shape i < values.length := hlen ▸ flatIndex_lt hi
  have hread : readBytes (values.map fun v => (v.cast t).toBytes).flatten.toArray
      (t.itemsize * flatIndex shape i) t.itemsize = (values[flatIndex shape i].cast t).toBytes := by
    rw [readBytes_flatten (by simp) (by simpa using hk), List.getElem_map]
  have hback := (values[flatIndex shape i].cast t).ofBytes_toBytes
  rw [Scalar.dtype_cast, ← hread] at hback
  have hget : values.getD (flatIndex shape i) v = values[flatIndex shape i] := by simp [hk]
  unfold element readAt
  rw [hcont.byteOffset_eq hi, hget]
  exact hback

theorem element_full {t : DType} {shape : List Nat} {v : Scalar}
    (hi : inBounds shape i = true) : (full t shape v).element i = v.cast t := by
  have hlen : (List.replicate (size shape) v).length = size shape := List.length_replicate ..
  have helement := element_rowMajor (t := t) hlen hi v
  have hget : (List.replicate (size shape) v).getD (flatIndex shape i) v = v := by
    simp [flatIndex_lt hi]
  rwa [List.map_replicate, hget] at helement

/-! ## Many elements -/

variable {g : List Nat → Except Error Scalar} {l : List (List Nat)} {out out' : NDArray} {e : Error}

/-- Puts the result for each coordinate in its place, one after the other. -/
def putAll (out : NDArray) (g : List Nat → Except Error Scalar) (l : List (List Nat)) :
    Except Error NDArray :=
  l.foldlM (fun out index => do return out.put index (← g index)) out

theorem putAll_nil : out.putAll g [] = .ok out := rfl

theorem putAll_cons (i : List Nat) :
    out.putAll g (i :: l) = g i >>= fun v => (out.put i v).putAll g l := by
  unfold putAll
  rw [List.foldlM_cons]
  cases g i <;> rfl

theorem putAll_congr {g' : List Nat → Except Error Scalar} (h : ∀ i ∈ l, g i = g' i) :
    out.putAll g l = out.putAll g' l := by
  induction l generalizing out with
  | nil => rfl
  | cons i l ih =>
    rw [putAll_cons, putAll_cons, h i (.head _)]
    exact congrArg (g' i >>= ·) (funext fun v => ih fun j hj => h j (.tail _ hj))

theorem putAll_ok (out : NDArray) (f : List Nat → Scalar) (l : List (List Nat)) :
    out.putAll (fun index => .ok (f index)) l =
      .ok (l.foldl (fun out index => out.put index (f index)) out) := by
  induction l generalizing out with
  | nil => rfl
  | cons i l ih =>
    rw [putAll_cons, ok_bind, ih]
    rfl

theorem putAll_frame (h : out.putAll g l = .ok out') :
    out'.dtype = out.dtype ∧ out'.shape = out.shape ∧ out'.strides = out.strides ∧
      out'.data.size = out.data.size := by
  induction l generalizing out with
  | nil =>
    cases h
    exact ⟨rfl, rfl, rfl, rfl⟩
  | cons i l ih =>
    rw [putAll_cons] at h
    obtain ⟨v, -, h⟩ := bind_eq_ok.1 h
    obtain ⟨hdtype, hshape, hstrides, hsize⟩ := ih h
    exact ⟨hdtype, hshape, hstrides, hsize.trans size_put⟩

/-- What is put is found again, and everything else is as it was. -/
theorem putAll_element (hout : out.Separate) (hl : ∀ i ∈ l, inBounds out.shape i = true)
    (h : out.putAll g l = .ok out') {j : List Nat} (hj : inBounds out.shape j = true) :
    (j ∈ l → ∃ v, g j = .ok v ∧ out'.element j = v.cast out.dtype) ∧
      (j ∉ l → out'.element j = out.element j) := by
  induction l generalizing out with
  | nil =>
    cases h
    exact ⟨nofun, fun _ => rfl⟩
  | cons i l ih =>
    rw [putAll_cons] at h
    obtain ⟨v, hv, h⟩ := bind_eq_ok.1 h
    obtain ⟨hin, hnot⟩ := ih hout.put (fun k hk => hl k (.tail _ hk)) h hj
    have hput := hout.element_put (v := v) (hl i (.head _)) hj
    constructor
    · intro hmem
      by_cases hjl : j ∈ l
      · exact hin hjl
      · obtain rfl : j = i := (List.mem_cons.1 hmem).resolve_right hjl
        rw [hnot hjl, hput, if_pos rfl]
        exact ⟨v, hv, rfl⟩
    · intro hmem
      rw [List.mem_cons, not_or] at hmem
      rw [hnot hmem.2, hput, if_neg (Ne.symm hmem.1)]

theorem putAll_eq_error (hl : l.Pairwise (· < ·)) :
    out.putAll g l = .error e ↔
      ∃ i ∈ l, g i = .error e ∧ ∀ j ∈ l, j < i → ∃ v, g j = .ok v := by
  induction l generalizing out with
  | nil => simp [putAll_nil]
  | cons i l ih =>
    obtain ⟨hi, hl⟩ := List.pairwise_cons.1 hl
    rw [putAll_cons, bind_eq_error]
    constructor
    · rintro (h | ⟨v, hv, h⟩)
      · refine ⟨i, .head _, h, ?_⟩
        rintro j (_ | ⟨_, hj⟩) hlt
        · exact absurd hlt (List.lt_irrefl i)
        · exact absurd hlt (Std.Asymm.asymm _ _ (hi j hj))
      · obtain ⟨k, hk, hke, hfirst⟩ := (ih hl).1 h
        refine ⟨k, .tail _ hk, hke, ?_⟩
        rintro j (_ | ⟨_, hj⟩) hlt
        · exact ⟨v, hv⟩
        · exact hfirst j hj hlt
    · rintro ⟨k, hk, hke, hfirst⟩
      rcases List.mem_cons.1 hk with rfl | hk
      · exact .inl hke
      · obtain ⟨v, hv⟩ := hfirst i (.head _) (hi k hk)
        exact .inr ⟨v, hv, (ih hl).2 ⟨k, hk, hke, fun j hj => hfirst j (.tail _ hj)⟩⟩

theorem putAll_indices_element (hout : out.Separate) (h : out.putAll g (indices out.shape) = .ok out')
    {j : List Nat} (hj : inBounds out.shape j = true) :
    ∃ v, g j = .ok v ∧ out'.element j = v.cast out.dtype :=
  (putAll_element hout (fun _ => mem_indices.1) h hj).1 (mem_indices.2 hj)

theorem putAll_indices_eq_ok (hout : out.Contiguous) (h : out.putAll g (indices out.shape) = .ok out') :
    out'.Contiguous ∧ out'.dtype = out.dtype ∧ out'.shape = out.shape ∧
      ∀ j, inBounds out.shape j = true → ∃ v, g j = .ok v ∧ out'.element j = v.cast out.dtype := by
  obtain ⟨hdtype, hshape, hstrides, hsize⟩ := putAll_frame h
  have hcont : out'.Contiguous := by
    constructor
    · rw [hstrides, hshape, itemsize, hdtype]
      exact hout.strides
    · rw [hsize, hshape, itemsize, hdtype]
      exact hout.size
  exact ⟨hcont, hdtype, hshape, fun j hj => putAll_indices_element hout.separate h hj⟩

theorem putAll_indices_eq_error :
    out.putAll g (indices out.shape) = .error e ↔
      ∃ i, inBounds out.shape i = true ∧ g i = .error e ∧
        ∀ j, inBounds out.shape j = true → j < i → ∃ v, g j = .ok v := by
  rw [putAll_eq_error (pairwise_indices _)]
  simp only [mem_indices]

end NDArray

end Pointwise

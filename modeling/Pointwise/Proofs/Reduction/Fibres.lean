import Pointwise.Proofs.Reduction.Axes

/-!
# Fibres of a reduction

What a reduction along several axes folds into one element are the elements of the array at all
coordinates that are left at the same place. A commutative and associative operation gives the same
total in whatever order they come, so it does not matter how they are put together from lines.
-/

namespace Pointwise

open NDArray (inBounds)
open Stateful

/-! ## Commutative operations -/

/-- An operation that is associative and commutative on the elements of a type, with an element that
changes nothing. -/
structure CommutativeOn (t : DType) (op : Scalar → Scalar → Scalar) (start : Scalar) : Prop where
  dtype_start : start.dtype = t
  dtype_op : ∀ x y, x.dtype = t → y.dtype = t → (op x y).dtype = t
  assoc : ∀ x y z, x.dtype = t → y.dtype = t → z.dtype = t → op (op x y) z = op x (op y z)
  comm : ∀ x y, x.dtype = t → y.dtype = t → op x y = op y x
  neutral : ∀ x, x.dtype = t → op start x = x

namespace CommutativeOn

variable {t : DType} {op : Scalar → Scalar → Scalar} {start s : Scalar} {l l' : List Scalar}
  (h : CommutativeOn t op start)
include h

theorem dtype_foldl (hl : ∀ x ∈ l, x.dtype = t) (hs : s.dtype = t) : (l.foldl op s).dtype = t := by
  induction l generalizing s with
  | nil => exact hs
  | cons x l ih =>
    obtain ⟨hx, hl⟩ := List.forall_mem_cons.1 hl
    exact ih hl (h.dtype_op s x hs hx)

theorem foldl_eq (hl : ∀ x ∈ l, x.dtype = t) (hs : s.dtype = t) :
    l.foldl op s = op s (l.foldl op start) := by
  induction l generalizing s with
  | nil => exact ((h.comm s start hs h.dtype_start).trans (h.neutral s hs)).symm
  | cons x l ih =>
    obtain ⟨hx, hl⟩ := List.forall_mem_cons.1 hl
    have hrest := h.dtype_foldl hl h.dtype_start
    rw [List.foldl_cons, List.foldl_cons, h.neutral x hx, ih hl (h.dtype_op s x hs hx), ih hl hx,
      h.assoc s x _ hs hx hrest]

theorem foldl_cons (hl : ∀ x ∈ l, x.dtype = t) {x : Scalar} (hx : x.dtype = t) :
    (x :: l).foldl op start = op x (l.foldl op start) := by
  rw [List.foldl_cons, h.neutral x hx, h.foldl_eq hl hx]

theorem foldl_append (hl : ∀ x ∈ l, x.dtype = t) (hl' : ∀ x ∈ l', x.dtype = t) :
    (l ++ l').foldl op start = op (l.foldl op start) (l'.foldl op start) := by
  rw [List.foldl_append, h.foldl_eq hl' (h.dtype_foldl hl h.dtype_start)]

theorem foldl_perm (hperm : l.Perm l') (hl : ∀ x ∈ l, x.dtype = t) :
    l.foldl op start = l'.foldl op start := by
  induction hperm with
  | nil => rfl
  | @cons x l l' hperm ih =>
    obtain ⟨hx, hl⟩ := List.forall_mem_cons.1 hl
    rw [h.foldl_cons hl hx, h.foldl_cons (fun y hy => hl y (hperm.mem_iff.2 hy)) hx, ih hl]
  | swap x y l =>
    obtain ⟨hy, hl⟩ := List.forall_mem_cons.1 hl
    obtain ⟨hx, hl⟩ := List.forall_mem_cons.1 hl
    simp only [List.foldl_cons, h.neutral y hy, h.neutral x hx, h.comm y x hy hx]
  | trans hperm _ ih ih' =>
    exact (ih hl).trans (ih' fun x hx => hl x (hperm.mem_iff.2 hx))

theorem foldl_flatMap {α : Type} (f : α → List Scalar) {places : List α}
    (hf : ∀ c ∈ places, ∀ x ∈ f c, x.dtype = t) :
    (places.map fun c => (f c).foldl op start).foldl op start =
      (places.flatMap f).foldl op start := by
  induction places with
  | nil => rfl
  | cons c places ih =>
    obtain ⟨hc, hrest⟩ := List.forall_mem_cons.1 hf
    have htotals : ∀ x ∈ places.map fun c => (f c).foldl op start, x.dtype = t := by
      intro x hx
      obtain ⟨d, hd, rfl⟩ := List.mem_map.1 hx
      exact h.dtype_foldl (hrest d hd) h.dtype_start
    have hall : ∀ x ∈ places.flatMap f, x.dtype = t := by
      intro x hx
      obtain ⟨d, hd, hx⟩ := List.mem_flatMap.1 hx
      exact hrest d hd x hx
    rw [List.map_cons, List.flatMap_cons, h.foldl_cons htotals (h.dtype_foldl hc h.dtype_start),
      h.foldl_append hc hall, ih hrest]

theorem foldlM_eq (hl : ∀ x ∈ l, x.dtype = t) (hs : s.dtype = t) :
    l.foldlM (stepOf (fun x y => .ok (op x y)) t) s = .ok (l.foldl op s) := by
  induction l generalizing s with
  | nil => rfl
  | cons x l ih =>
    obtain ⟨hx, hl⟩ := List.forall_mem_cons.1 hl
    have hop := h.dtype_op s x hs hx
    have hstep : stepOf (fun x y => .ok (op x y)) t s x = .ok (op s x) := by
      unfold stepOf
      rw [map_ok, Scalar.cast_of_dtype hop]
    rw [List.foldlM_cons, hstep, ok_bind, ih hl hop, List.foldl_cons]

end CommutativeOn

/-! ## Fibres -/

/-- The elements at the coordinates that are left at `j` once some axes are gone. -/
def NDArray.fibre (a : NDArray) (axes j : List Nat) : List Scalar :=
  ((indices a.shape).filter (removeAll axes · == j)).map a.element

theorem removeAll_perm {α : Type} {axes axes' : List Nat} (h : axes.Perm axes') (l : List α) :
    removeAll axes l = removeAll axes' l := by
  unfold removeAll
  simp only [h.mem_iff]

theorem removeAll_one {α : Type} (k : Nat) (l : List α) : removeAll [k] l = removeAt k l := by
  have hskip := removeAll_skip k [] l
  rwa [removeAll_nil] at hskip

theorem removeAll_range {α : Type} {n : Nat} {l : List α} (h : l.length ≤ n) :
    removeAll (List.range n) l = [] := by
  unfold removeAll
  rw [List.map_eq_nil_iff, List.filter_eq_nil_iff]
  rintro ⟨x, i⟩ hp
  have hi := List.snd_lt_of_mem_zipIdx hp
  simp
  omega

theorem perm_flatMap_filter {α : Type} (f : α → List Nat) (l : List α) {keys : List (List Nat)}
    (hkeys : keys.Nodup) :
    (keys.flatMap fun key => l.filter (f · == key)).Perm (l.filter fun x => f x ∈ keys) := by
  induction keys with
  | nil => simp
  | cons key keys ih =>
    obtain ⟨hkey, hkeys⟩ := List.nodup_cons.1 hkeys
    have hsplit := List.filter_append_perm (f · == key) (l.filter fun x => f x ∈ key :: keys)
    rw [List.filter_filter, List.filter_filter] at hsplit
    have hthis : (l.filter fun x => f x == key && decide (f x ∈ key :: keys)) =
        l.filter (f · == key) := by
      refine List.filter_congr fun x _ => ?_
      by_cases hx : f x = key <;> simp [hx]
    have hothers : (l.filter fun x => !(f x == key) && decide (f x ∈ key :: keys)) =
        l.filter fun x => f x ∈ keys := by
      refine List.filter_congr fun x _ => ?_
      by_cases hx : f x = key
      · simp [hx, hkey]
      · simp [hx]
    rw [hthis, hothers] at hsplit
    exact ((ih hkeys).append_left _).trans hsplit

theorem nodup_indices (shape : List Nat) : (indices shape).Nodup :=
  (pairwise_indices shape).imp fun {_ j} hlt heq => absurd (heq ▸ hlt) (List.lt_irrefl j)

namespace NDArray

variable {a : NDArray} {k : Nat} {ks axes j : List Nat}

theorem dtype_of_mem_fibre {x : Scalar} (h : x ∈ a.fibre axes j) : x.dtype = a.dtype := by
  obtain ⟨i, -, rfl⟩ := List.mem_map.1 h
  exact a.dtype_element i

theorem dtype_of_mem_line {x : Scalar} (h : x ∈ a.line k j) : x.dtype = a.dtype := by
  obtain ⟨i, -, rfl⟩ := List.mem_map.1 h
  exact a.dtype_element _

theorem fibre_one (hk : k < a.shape.length) (hj : inBounds (removeAt k a.shape) j = true) :
    a.fibre [k] j = a.line k j := by
  unfold fibre line
  simp only [removeAll_one]
  rw [filter_indices hk hj, List.map_map]
  rfl

theorem fibre_range (a : NDArray) : a.fibre (List.range a.rank) [] = a.toScalars := by
  unfold fibre toScalars
  congr 1
  refine List.filter_eq_self.2 fun i hi => ?_
  have hnone : removeAll (List.range a.rank) i = [] :=
    removeAll_range (length_of_inBounds (mem_indices.1 hi)).le
  rw [hnone]
  rfl

theorem fibre_perm_lines (hk : k < a.shape.length) (ks j : List Nat) :
    (a.fibre (k :: ks.map (skip k)) j).Perm
      (((indices (removeAt k a.shape)).filter (removeAll ks · == j)).flatMap (a.line k)) := by
  have hlines : ((indices (removeAt k a.shape)).filter (removeAll ks · == j)).flatMap (a.line k) =
      (((indices (removeAt k a.shape)).filter (removeAll ks · == j)).flatMap fun c =>
        (indices a.shape).filter (removeAt k · == c)).map a.element := by
    rw [List.map_flatMap]
    refine List.flatMap_congr fun c hc => ?_
    have hin := mem_indices.1 (List.mem_filter.1 hc).1
    rw [filter_indices hk hin, List.map_map]
    rfl
  rw [hlines]
  refine List.Perm.map _ (List.Perm.symm ?_)
  refine (perm_flatMap_filter (removeAt k) _ ((nodup_indices _).filter _)).trans ?_
  refine List.Perm.of_eq (List.filter_congr fun i hi => ?_)
  have hin := mem_indices.2 (inBounds_removeAt hk (mem_indices.1 hi))
  rw [removeAll_skip, Bool.eq_iff_iff]
  simp [hin]

end NDArray

/-! ## Totals of fibres -/

/-- Two results of one kind, type and shape that have the same elements. -/
structure Reduced.Alike (r r' : Reduced) : Prop where
  isScalar : r'.isScalar = r.isScalar
  dtype : r'.dtype = r.dtype
  shape : r'.shape = r.shape
  element : ∀ j, inBounds r.shape j = true → r'.element j = r.element j

/-- A result of the shape without the axes that holds the total of each fibre, which is a scalar if
no axis is left. -/
structure FibreTotals (op : Scalar → Scalar → Scalar) (start : Scalar) (a : NDArray)
    (axes : List Nat) (result : Reduced) : Prop where
  isScalar : result.isScalar = decide (axes.length = a.rank)
  dtype : result.dtype = a.dtype
  shape : result.shape = removeAll axes a.shape
  /-- The elements of the fibre may come in any order. -/
  element : ∀ j, inBounds result.shape j = true → ∀ l : List Scalar,
    l.Perm (a.fibre axes j) → result.element j = l.foldl op start

namespace FibreTotals

variable {op : Scalar → Scalar → Scalar} {start : Scalar} {a out : NDArray} {k : Nat}
  {ks axes axes' : List Nat} {result : Reduced}

theorem of_perm (h : FibreTotals op start a axes result) (haxes : axes.Perm axes') :
    FibreTotals op start a axes' result where
  isScalar := by rw [h.isScalar, haxes.length_eq]
  dtype := h.dtype
  shape := h.shape.trans (removeAll_perm haxes _)
  element j hj l hl := by
    refine h.element j hj l (hl.trans (List.Perm.of_eq ?_))
    unfold NDArray.fibre
    simp only [removeAll_perm haxes]

theorem alike {result' : Reduced} (h : FibreTotals op start a axes result)
    (h' : FibreTotals op start a axes result') : result.Alike result' where
  isScalar := h'.isScalar.trans h.isScalar.symm
  dtype := h'.dtype.trans h.dtype.symm
  shape := h'.shape.trans h.shape.symm
  element j hj := by
    have hj' : inBounds result'.shape j = true := by rwa [h'.shape, ← h.shape]
    rw [h.element j hj _ (.refl _), h'.element j hj' _ (.refl _)]

theorem of_line (hop : CommutativeOn a.dtype op start) (hk : k < a.shape.length)
    (hscalar : result.isScalar = decide (a.rank = 1)) (hdtype : result.dtype = a.dtype)
    (hshape : result.shape = removeAt k a.shape)
    (helement : ∀ j, inBounds (removeAt k a.shape) j = true →
      result.element j = (a.line k j).foldl op start) : FibreTotals op start a [k] result where
  isScalar := by
    rw [hscalar, List.length_singleton]
    exact decide_eq_decide.2 eq_comm
  dtype := hdtype
  shape := by rw [hshape, removeAll_one]
  element j hj l hl := by
    rw [hshape] at hj
    rw [NDArray.fibre_one hk hj] at hl
    rw [helement j hj, hop.foldl_perm hl.symm fun x hx => NDArray.dtype_of_mem_line hx]

theorem rank_add_one (h : FibreTotals op start a [k] (.array out)) (hk : k < a.rank) :
    out.rank + 1 = a.rank := by
  have hshape : out.shape = removeAll [k] a.shape := h.shape
  unfold NDArray.rank at hk ⊢
  rw [hshape, removeAll_one, length_removeAt hk]

/-- The totals of totals along one axis are those of the fibres of all axes. -/
theorem trans (hop : CommutativeOn a.dtype op start) (hk : k < a.rank)
    (hout : FibreTotals op start a [k] (.array out)) (h : FibreTotals op start out ks result) :
    FibreTotals op start a (k :: ks.map (skip k)) result where
  isScalar := by
    rw [h.isScalar, List.length_cons, List.length_map, ← hout.rank_add_one hk]
    simp
  dtype := h.dtype.trans hout.dtype
  shape := by
    have hshape : out.shape = removeAll [k] a.shape := hout.shape
    rw [h.shape, hshape, removeAll_one, removeAll_skip]
  element j hj l hl := by
    have hshape : out.shape = removeAt k a.shape := hout.shape.trans (removeAll_one ..)
    have hlines : (out.fibre ks j).foldl op start =
        (a.fibre (k :: ks.map (skip k)) j).foldl op start := by
      have hline : ∀ c ∈ (indices out.shape).filter (removeAll ks · == j),
          out.element c = (a.line k c).foldl op start := by
        intro c hc
        have hin := mem_indices.1 (List.mem_filter.1 hc).1
        refine hout.element c hin _ (List.Perm.of_eq ?_)
        rw [NDArray.fibre_one hk (hshape ▸ hin)]
      unfold NDArray.fibre
      rw [List.map_congr_left hline,
        hop.foldl_flatMap _ fun c _ x hx => NDArray.dtype_of_mem_line hx, hshape]
      exact (hop.foldl_perm (NDArray.fibre_perm_lines hk ks j) fun x hx =>
        NDArray.dtype_of_mem_fibre hx).symm
    rw [h.element j hj _ (List.Perm.refl _), hlines]
    exact hop.foldl_perm hl.symm fun x hx => NDArray.dtype_of_mem_fibre hx

end FibreTotals

end Pointwise

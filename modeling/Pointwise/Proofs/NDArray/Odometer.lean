import Mathlib.Data.List.Induction
import Mathlib.Logic.Function.Iterate
import Pointwise.Proofs.NDArray.Coordinates

/-!
# Walks to the end

An odometer that is asked again and again gives the coordinates of its shape in lexicographic order,
each once, and from then on nothing. Each request turns the wheels from the last one on, and stops
at the latest before the first.
-/

namespace Pointwise

open NDArray (inBounds)

/-! ## The wheels -/

theorem nextIndex?_concat {ds is : List Nat} (h : is.length = ds.length) (d i : Nat) :
    nextIndex? (ds ++ [d]) (is ++ [i]) =
      if i + 1 < d then some (is ++ [i + 1]) else (nextIndex? ds is).map (· ++ [0]) := by
  induction ds generalizing is with
  | nil =>
    obtain rfl := List.eq_nil_of_length_eq_zero h
    simp [nextIndex?]
  | cons e ds ih =>
    cases is with
    | nil => cases h
    | cons j is =>
      rw [List.cons_append, List.cons_append, nextIndex?, ih (Nat.succ_inj.1 h)]
      by_cases hi : i + 1 < d
      · rw [if_pos hi, if_pos hi]
        rfl
      · rw [if_neg hi, if_neg hi, nextIndex?]
        cases nextIndex? ds is with
        | some js => rfl
        | none =>
          by_cases hj : j + 1 < e
          · simp [hj, List.replicate_succ']
          · simp [hj]

theorem length_of_nextIndex? {shape i j : List Nat} (h : nextIndex? shape i = some j) :
    j.length = i.length := by
  induction shape generalizing i j with
  | nil => cases h
  | cons d ds ih =>
    cases i with
    | nil => cases h
    | cons i is =>
      rw [nextIndex?] at h
      split at h
      next js hjs =>
        cases h
        rw [List.length_cons, List.length_cons, ih hjs]
      next =>
        split at h
        · cases h
          simp
        · cases h

theorem size_eq_zero {shape : List Nat} : size shape = 0 ↔ 0 ∈ shape := by
  induction shape with
  | nil => simp [size]
  | cons d ds ih =>
    have hsize : size (d :: ds) = d * size ds := rfl
    rw [hsize, Nat.mul_eq_zero, ih, List.mem_cons, eq_comm]

namespace Odometer

/-- A request on its way from the last wheel to the first. -/
inductive Carry where
  /-- The wheels from `axis` on have come around, and the one before them is to be turned. -/
  | before (axis : Nat) (index : List Nat)
  /-- A wheel had another place, or no wheel had one. -/
  | stopped (found : Bool) (index : List Nat)
deriving DecidableEq, Repr

namespace Carry

/-- Turns one more wheel by a place, and sets it back where it has come around. -/
def turn (shape : List Nat) : Carry → Carry
  | before 0 index => stopped false index
  | before (k + 1) index =>
    if index.getD k 0 + 1 < shape.getD k 0 then stopped true (index.set k (index.getD k 0 + 1))
    else before k (index.set k 0)
  | stopped found index => stopped found index

theorem turn_before_concat {ds is : List Nat} (h : is.length = ds.length) (d i : Nat)
    (es js : List Nat) :
    turn (ds ++ d :: es) (before (ds.length + 1) (is ++ i :: js)) =
      if i + 1 < d then stopped true (is ++ (i + 1) :: js)
      else before ds.length (is ++ 0 :: js) := by
  have hset (j : Nat) : (is ++ i :: js).set ds.length j = is ++ j :: js := by
    rw [← h, List.set_append_right _ _ (Nat.le_refl _), Nat.sub_self, List.set_cons_zero]
  have hi : (is ++ i :: js).getD ds.length 0 = i := by simp [← h]
  have hd : (ds ++ d :: es).getD ds.length 0 = d := by simp
  rw [turn, hi, hd, hset, hset]

/-- The carry stops where the next coordinate is, or with all wheels set back. The wheels behind
those that are still to be turned are those that have come around. -/
theorem stops {ds is : List Nat} (h : is.length = ds.length) (es : List Nat) :
    ∃ n ≤ ds.length + 1, (turn (ds ++ es))^[n]
        (before ds.length (is ++ List.replicate es.length 0)) =
      match nextIndex? ds is with
      | some js => stopped true (js ++ List.replicate es.length 0)
      | none => stopped false (List.replicate (ds ++ es).length 0) := by
  -- The carry goes through the wheels from behind.
  induction ds using List.reverseRecOn generalizing is es with
  | nil =>
    obtain rfl := List.eq_nil_of_length_eq_zero h
    exact ⟨1, Nat.le_refl 1, rfl⟩
  | append_singleton ds d ih =>
    obtain rfl | ⟨is, i, rfl⟩ := List.eq_nil_or_concat is
    · simp at h
    rw [List.concat_eq_append] at h ⊢
    replace h : is.length = ds.length := by simpa using h
    have hturn := turn_before_concat h d i es (List.replicate es.length 0)
    simp only [List.length_append, List.length_singleton, List.append_assoc, List.singleton_append,
      nextIndex?_concat h]
    by_cases hi : i + 1 < d
    · rw [if_pos hi] at hturn ⊢
      refine ⟨1, by omega, ?_⟩
      rw [Function.iterate_one, hturn]
      simp
    · rw [if_neg hi] at hturn ⊢
      obtain ⟨n, hn, hstop⟩ := ih h (d :: es)
      refine ⟨n + 1, by omega, ?_⟩
      rw [List.length_cons, List.replicate_succ] at hstop
      rw [Function.iterate_succ_apply, hturn, hstop]
      cases nextIndex? ds is <;> simp

end Carry

/-! ## Requests -/

/-- The walk after some requests. -/
def skipped : (n : Nat) → Odometer → Odometer
  | 0, o => o
  | n + 1, o => skipped n o.next.2

/-- What a request is answered with after some others. -/
def answer (n : Nat) (o : Odometer) : Option (List Nat) := (skipped n o).next.1

variable {o : Odometer}

theorem next_of_done (h : o.done = true) : o.next = (none, o) := by
  unfold next
  rw [if_pos h]

theorem answer_of_done (h : o.done = true) (n : Nat) : answer n o = none := by
  induction n with
  | zero => exact congrArg Prod.fst (next_of_done h)
  | succ n ih =>
    show answer n o.next.2 = none
    rwa [next_of_done h]

theorem answer_of_walks {shape i : List Nat} {l : List (List Nat)} (h : Walks shape (i :: l))
    (n : Nat) : answer n ⟨shape, i, true, false⟩ = l[n]? := by
  induction l generalizing i n with
  | nil =>
    have hnext : next ⟨shape, i, true, false⟩ =
        (none, ⟨shape, List.replicate shape.length 0, true, true⟩) := by
      rw [next_started, show nextIndex? shape i = none from h]
    cases n with
    | zero => exact congrArg Prod.fst hnext
    | succ n =>
      show answer n (next ⟨shape, i, true, false⟩).2 = none
      rw [hnext]
      exact answer_of_done rfl n
  | cons j l ih =>
    obtain ⟨hstep, hl⟩ := h
    have hnext : next ⟨shape, i, true, false⟩ = (some j, ⟨shape, j, true, false⟩) := by
      rw [next_started, hstep]
    cases n with
    | zero => exact congrArg Prod.fst hnext
    | succ n =>
      show answer n (next ⟨shape, i, true, false⟩).2 = l[n]?
      rw [hnext]
      exact ih hl n

theorem answer_start (shape : List Nat) (n : Nat) :
    answer n (start shape) = (indices shape)[n]? := by
  have hwalk := walks_coordinates shape
  rw [indices_eq_coordinates]
  cases hc : coordinates shape with
  | nil =>
    have hsize : size shape = 0 := by rw [← length_coordinates, hc, List.length_nil]
    have hdone : (start shape).done = true := by
      simpa [start] using size_eq_zero.1 hsize
    rw [answer_of_done hdone]
    rfl
  | cons i l =>
    obtain rfl : i = List.replicate shape.length 0 := by
      have hne : coordinates shape ≠ [] := by simp [hc]
      simpa [hc] using head?_coordinates hne
    have hmem : List.replicate shape.length 0 ∈ coordinates shape := by simp [hc]
    have hnext : (start shape).next = (some (List.replicate shape.length 0),
        ⟨shape, List.replicate shape.length 0, true, false⟩) := by
      unfold next start
      simp [no_empty_axis (mem_coordinates.1 hmem)]
    rw [hc] at hwalk
    cases n with
    | zero => exact congrArg Prod.fst hnext
    | succ n =>
      show answer n (start shape).next.2 = l[n]?
      rw [hnext]
      exact answer_of_walks hwalk n

/-! ## The carry of every request -/

/-- The wheels are those of a shape. -/
def Fits (shape : List Nat) (o : Odometer) : Prop :=
  o.shape = shape ∧ o.index.length = shape.length

theorem Fits.next {shape : List Nat} (h : Fits shape o) : Fits shape o.next.2 := by
  obtain ⟨rfl, hlen⟩ := h
  unfold Odometer.next
  split
  · exact ⟨rfl, hlen⟩
  · split
    · exact ⟨rfl, hlen⟩
    · split
      next j hj => exact ⟨rfl, (length_of_nextIndex? hj).trans hlen⟩
      next => exact ⟨rfl, List.length_replicate⟩

theorem Fits.skipped {shape : List Nat} (h : Fits shape o) (n : Nat) :
    Fits shape (skipped n o) := by
  induction n generalizing o with
  | zero => exact h
  | succ n ih => exact ih h.next

theorem fits_start (shape : List Nat) : Fits shape (start shape) := ⟨rfl, List.length_replicate⟩

theorem Fits.carry_stops {shape : List Nat} (h : Fits shape o) (hstarted : o.started = true)
    (hdone : o.done = false) :
    ∃ turns ≤ shape.length + 1, ∃ found,
      (Carry.turn shape)^[turns] (.before shape.length o.index) = .stopped found o.next.2.index ∧
        o.next.1 = if found then some o.next.2.index else none := by
  obtain ⟨_, index, _, _⟩ := o
  obtain ⟨rfl, hlen⟩ := h
  cases hstarted
  cases hdone
  obtain ⟨turns, hturns, hstop⟩ := Carry.stops hlen []
  simp only [List.append_nil, List.length_nil, List.replicate_zero] at hstop
  refine ⟨turns, hturns, ?_⟩
  rw [hstop, next_started]
  cases nextIndex? _ index with
  | some js => exact ⟨true, rfl, rfl⟩
  | none => exact ⟨false, rfl, rfl⟩

/--
The requests to an odometer are answered with the coordinates of its shape in lexicographic order,
each once, and then with nothing for good. There are as many coordinates as the shape has elements.
Every request past the first takes at most one turn of each wheel.
-/
theorem answers_enumerate_shape (shape : List Nat) :
    (∀ n, answer n (start shape) = (indices shape)[n]?) ∧
    (∀ index, index ∈ indices shape ↔ inBounds shape index = true) ∧
    (indices shape).Pairwise (· < ·) ∧ (indices shape).length = size shape ∧
    (shape = [] → indices shape = [[]]) ∧ (0 ∈ shape → indices shape = []) ∧
    ∀ n, (skipped n (start shape)).started = true → (skipped n (start shape)).done = false →
      ∃ turns ≤ shape.length + 1, ∃ found,
        (Carry.turn shape)^[turns] (.before shape.length (skipped n (start shape)).index) =
            .stopped found (skipped n (start shape)).next.2.index ∧
          answer n (start shape) =
            if found then some (skipped n (start shape)).next.2.index else none := by
  have hlength : (indices shape).length = size shape := by
    rw [indices_eq_coordinates, length_coordinates]
  refine ⟨answer_start shape, fun index => mem_indices, pairwise_indices shape, hlength, ?_, ?_, ?_⟩
  · rintro rfl
    rfl
  · intro h
    exact List.eq_nil_of_length_eq_zero (hlength.trans (size_eq_zero.2 h))
  · intro n
    exact ((fits_start shape).skipped n).carry_stops

/-- The third request to two wheels of two places, for which the last one comes around. -/
theorem answers_enumerate_shape_square :
    (skipped 2 (start [2, 2])).started = true ∧ (skipped 2 (start [2, 2])).done = false ∧
      answer 2 (start [2, 2]) = some [1, 0] ∧ answer 7 (start [2, 2]) = none ∧
      (∃ turns ≤ 3, ∃ found, (Carry.turn [2, 2])^[turns] (.before 2 [0, 1]) =
        .stopped found [1, 0] ∧ some [1, 0] = if found then some [1, 0] else none) ∧
      indices [2, 0] = [] := by
  obtain ⟨hanswer, -, -, -, -, -, hcarry⟩ := answers_enumerate_shape [2, 2]
  obtain ⟨-, -, -, -, -, hempty, -⟩ := answers_enumerate_shape [2, 0]
  exact ⟨rfl, rfl, hanswer 2, hanswer 7, hcarry 2 rfl rfl, hempty (by decide)⟩

end Odometer

end Pointwise

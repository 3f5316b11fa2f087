import Mathlib.Data.List.Nodup
import Pointwise.Proofs.Outcome
import Pointwise.Reduction.Axis

/-!
# Named axes

Which ways to name axes are valid for an array, and what the checks make of them.
-/

namespace Pointwise

namespace Axis

variable {rank : Nat} {k : Int} {ks rest : List Int} {seen : List Nat}

/-- Whether an array with the given rank has the axes that are named. -/
def Valid (rank : Nat) : Axis → Prop
  | .index k => 0 ≤ k ∧ k < rank
  | .several ks => ks ≠ [] ∧ ks.Nodup ∧ ∀ k ∈ ks, 0 ≤ k ∧ k < rank
  | .all => True
  | .unspecified => rank = 1

theorem valid_index {k : Nat} (hk : k < rank) : Valid rank (.index k) :=
  ⟨Int.natCast_nonneg k, Int.ofNat_lt.2 hk⟩

/-- An axis is named alone, or it is the only one. -/
def Names (axis : Axis) (rank k : Nat) : Prop :=
  axis = .index k ∨ axis = .several [(k : Int)] ∨
    rank = 1 ∧ (axis = .all ∨ axis = .unspecified)

theorem names_inj {axis : Axis} {k k' : Nat} (hrank : 1 < rank) (h : axis.Names rank k)
    (h' : axis.Names rank k') : k = k' := by
  rcases h with rfl | rfl | ⟨hone, -⟩
  · rcases h' with heq | heq | ⟨hone, -⟩
    · exact Int.ofNat.inj (Axis.index.inj heq)
    · cases heq
    · omega
  · rcases h' with heq | heq | ⟨hone, -⟩
    · cases heq
    · exact Int.ofNat.inj (List.singleton_inj.1 (Axis.several.inj heq))
    · omega
  · omega

theorem exists_of_isSingle (h : (several ks).isSingle = true) : ∃ k, ks = [k] := by
  unfold isSingle at h
  split at h
  next heq => cases heq
  next k heq => exact ⟨k, by cases heq; rfl⟩
  next => cases h

theorem names_zero {axis : Axis} (h : axis.Valid 1) : axis.Names 1 0 := by
  cases axis with
  | index k =>
    have hk : 0 ≤ k ∧ k < (1 : Nat) := h
    obtain rfl : k = 0 := by omega
    exact .inl rfl
  | several ks =>
    obtain ⟨hne, hdistinct, hrange⟩ := h
    have hzero : ∀ k ∈ ks, k = 0 := fun k hk => by
      have := hrange k hk
      omega
    obtain ⟨k, rfl⟩ : ∃ k, ks = [k] := by
      rcases ks with _ | ⟨k, _ | ⟨k', rest⟩⟩
      · exact absurd rfl hne
      · exact ⟨k, rfl⟩
      · have hsame : k = k' := (hzero k (.head _)).trans (hzero k' (.tail _ (.head _))).symm
        exact absurd hdistinct (by simp [hsame])
    obtain rfl := hzero k (.head _)
    exact .inr (.inl rfl)
  | all => exact .inr (.inr ⟨rfl, .inl rfl⟩)
  | unspecified => exact .inr (.inr ⟨rfl, .inr rfl⟩)

/-! ## Checks -/

theorem check_of_range (h : 0 ≤ k ∧ k < rank) : check rank k = .ok k.toNat := by
  unfold check
  rw [if_neg (by omega)]

theorem check_of_not (h : ¬(0 ≤ k ∧ k < rank)) :
    check rank k = .error (.invalidAxis (.outOfRange k rank)) := by
  unfold check
  rw [if_pos (by omega)]

theorem lt_of_check {i : Nat} (h : check rank k = .ok i) : i < rank := by
  by_cases hk : 0 ≤ k ∧ k < rank
  · rw [check_of_range hk] at h
    cases h
    omega
  · rw [check_of_not hk] at h
    cases h

/-- One more axis is named, which is none of those that have been seen. -/
def see (rank : Nat) (ks : List Int) (seen : List Nat) (axis : Int) : Except Error (List Nat) := do
  let k ← check rank axis
  if k ∈ seen then throw (.invalidAxis (.repeated ks))
  return seen ++ [k]

theorem checkAll_eq (hks : ks ≠ []) : checkAll rank ks = ks.foldlM (see rank ks) [] := by
  unfold checkAll
  rw [List.isEmpty_eq_false_iff.2 hks]
  rfl

theorem foldlM_see_ends (hseen : seen.Nodup) :
    Ends (rest.foldlM (see rank ks) seen)
      (fun l => l = seen ++ rest.map Int.toNat ∧ l.Nodup ∧ ∀ k ∈ rest, 0 ≤ k ∧ k < rank)
      (fun e => (∃ p, e = .invalidAxis p) ∧
        ¬((seen ++ rest.map Int.toNat).Nodup ∧ ∀ k ∈ rest, 0 ≤ k ∧ k < rank)) := by
  induction rest generalizing seen with
  | nil => exact Ends.ok ⟨by simp, hseen, nofun⟩
  | cons k rest ih =>
    rw [List.foldlM_cons]
    by_cases hk : 0 ≤ k ∧ k < rank
    case neg =>
      rw [see, check_of_not hk]
      exact Ends.error ⟨⟨_, rfl⟩, fun h => hk (h.2 k (.head _))⟩
    case pos =>
      by_cases hold : k.toNat ∈ seen
      case pos =>
        rw [see, check_of_range hk, ok_bind, if_pos hold]
        refine Ends.error ⟨⟨_, rfl⟩, fun h => ?_⟩
        exact (List.nodup_append.1 h.1).2.2 _ hold _ (.head _) rfl
      case neg =>
        rw [see, check_of_range hk, ok_bind, if_neg hold]
        have hnodup : (seen ++ [k.toNat]).Nodup :=
          List.nodup_append_comm.2 (List.nodup_cons.2 ⟨hold, hseen⟩)
        have hrest := ih hnodup
        rw [← List.append_cons] at hrest
        refine hrest.mono ?_ ?_
        · rintro l ⟨rfl, hl, hrange⟩
          exact ⟨rfl, hl, List.forall_mem_cons.2 ⟨hk, hrange⟩⟩
        · rintro e ⟨he, hnot⟩
          exact ⟨he, fun h => hnot ⟨h.1, fun i hi => h.2 i (.tail _ hi)⟩⟩

theorem nodup_toNat (hks : ∀ k ∈ ks, 0 ≤ k) : (ks.map Int.toNat).Nodup ↔ ks.Nodup := by
  constructor
  · exact List.Nodup.of_map _
  · intro h
    refine h.map_on fun i hi j hj hij => ?_
    have hi := hks i hi
    have hj := hks j hj
    omega

theorem checkAll_ends : Ends (checkAll rank ks)
    (fun l => l = ks.map Int.toNat ∧ Valid rank (.several ks))
    (fun e => (∃ p, e = .invalidAxis p) ∧ ¬Valid rank (.several ks)) := by
  by_cases hks : ks = []
  case pos =>
    subst hks
    exact Ends.error ⟨⟨_, rfl⟩, fun h => h.1 rfl⟩
  case neg =>
    rw [checkAll_eq hks]
    refine (foldlM_see_ends List.nodup_nil).mono ?_ ?_
    · rintro l ⟨rfl, hl, hrange⟩
      exact ⟨rfl, hks, (nodup_toNat fun k hk => (hrange k hk).1).1 hl, hrange⟩
    · rintro e ⟨he, hnot⟩
      refine ⟨he, ?_⟩
      rintro ⟨-, hdistinct, hrange⟩
      exact hnot ⟨(nodup_toNat fun k hk => (hrange k hk).1).2 hdistinct, hrange⟩

theorem checkAll_of_valid (h : Valid rank (.several ks)) :
    checkAll rank ks = .ok (ks.map Int.toNat) := by
  have hends := @checkAll_ends rank ks
  cases hr : checkAll rank ks with
  | ok l => rw [(hends.of_ok hr).1]
  | error e => exact absurd h (hends.of_error hr).2

theorem checkAll_of_not (h : ¬Valid rank (.several ks)) :
    ∃ p, checkAll rank ks = .error (.invalidAxis p) := by
  have hends := @checkAll_ends rank ks
  cases hr : checkAll rank ks with
  | ok l => exact absurd (hends.of_ok hr).2 h
  | error e =>
    obtain ⟨⟨p, rfl⟩, -⟩ := hends.of_error hr
    exact ⟨p, rfl⟩

theorem checkAll_of_range (hks : ks ≠ []) (hrange : ∀ k ∈ ks, 0 ≤ k ∧ k < rank)
    (hdistinct : (ks.map Int.toNat).Nodup) : checkAll rank ks = .ok (ks.map Int.toNat) :=
  checkAll_of_valid ⟨hks, (nodup_toNat fun k hk => (hrange k hk).1).1 hdistinct, hrange⟩

end Axis

end Pointwise

import Mathlib.Data.List.Basic
import Mathlib.Data.List.Induction
import Pointwise.Definition
import Pointwise.Proofs.Definition.Nodes
import Pointwise.Proofs.Outcome

/-!
# The calls in an expression

The recorded host calls of a definition are the names and argument counts of its calls, each once
and in the order in which they first appear. The recorded counts stop at 255.
-/

namespace Pointwise

namespace Expr

section

variable {α β : Type} [DecidableEq α] [DecidableEq β]

theorem firsts_concat (l : List α) (x : α) :
    firsts (l ++ [x]) = if x ∈ firsts l then firsts l else firsts l ++ [x] := by
  unfold firsts
  rw [List.foldl_append]
  rfl

theorem mem_firsts {l : List α} {x : α} : x ∈ firsts l ↔ x ∈ l := by
  induction l using List.reverseRecOn with
  | nil => rfl
  | append_singleton l y ih =>
    rw [firsts_concat, List.mem_append, List.mem_singleton, ← ih]
    split
    next hy =>
      constructor
      · exact .inl
      · rintro (hx | rfl)
        · exact hx
        · exact hy
    next hy => rw [List.mem_append, List.mem_singleton]

theorem pairwise_firsts [BEq α] [LawfulBEq α] (l : List α) :
    (firsts l).Pairwise fun x y => l.idxOf x < l.idxOf y := by
  induction l using List.reverseRecOn with
  | nil => exact .nil
  | append_singleton l y ih =>
    have hindex : ∀ x ∈ firsts l, (l ++ [y]).idxOf x = l.idxOf x := fun x hx =>
      List.idxOf_append_of_mem (mem_firsts.1 hx)
    have hearlier : (firsts l).Pairwise fun x z => (l ++ [y]).idxOf x < (l ++ [y]).idxOf z :=
      ih.imp_of_mem fun hx hz hlt => by rwa [hindex _ hx, hindex _ hz]
    rw [firsts_concat]
    split
    next => exact hearlier
    next hy =>
      rw [List.pairwise_append]
      refine ⟨hearlier, List.pairwise_singleton .., fun x hx z hz => ?_⟩
      obtain rfl := List.mem_singleton.1 hz
      rw [hindex x hx, List.idxOf_append_of_notMem fun h => hy (mem_firsts.2 h)]
      exact Nat.lt_add_right _ (List.idxOf_lt_length_of_mem (mem_firsts.1 hx))

theorem nodup_firsts (l : List α) : (firsts l).Nodup :=
  (pairwise_firsts l).imp fun hlt heq => by
    rw [heq] at hlt
    exact Nat.lt_irrefl _ hlt

theorem firsts_of_nodup {l : List α} (h : l.Nodup) : firsts l = l := by
  induction l using List.reverseRecOn with
  | nil => rfl
  | append_singleton l y ih =>
    obtain ⟨hl, -, hapart⟩ := List.nodup_append.1 h
    rw [firsts_concat, ih hl, if_neg]
    exact fun hy => hapart y hy y (List.mem_singleton_self y) rfl

theorem map_firsts {f : α → β} (hf : Function.Injective f) (l : List α) :
    (firsts l).map f = firsts (l.map f) := by
  induction l using List.reverseRecOn with
  | nil => rfl
  | append_singleton l y ih =>
    have hmem : f y ∈ (firsts l).map f ↔ y ∈ firsts l := List.mem_map_of_injective hf
    rw [List.map_append, List.map_singleton, firsts_concat, firsts_concat, ← ih]
    by_cases hy : y ∈ firsts l
    · rw [if_pos hy, if_pos (hmem.2 hy)]
    · rw [if_neg hy, if_neg (mt hmem.1 hy), List.map_append, List.map_singleton]

end

/-! ## Calls -/

/-- The name and the number of arguments of a call. -/
def signature? : Expr → Option (String × Nat)
  | call name args => some (name, args.length)
  | _ => none

/-- The names and argument counts of the calls in an expression, each call before its arguments. -/
def signatures (e : Expr) : List (String × Nat) := e.nodes.filterMap signature?

theorem mem_signatures {e : Expr} {name : String} {n : Nat} :
    (name, n) ∈ e.signatures ↔ ∃ args, call name args ∈ e.nodes ∧ args.length = n := by
  simp only [signatures, List.mem_filterMap]
  constructor
  · rintro ⟨m, hm, h⟩
    cases m with
    | call name' args =>
      cases h
      exact ⟨args, hm, rfl⟩
    | _ => cases h
  · rintro ⟨args, hargs, rfl⟩
    exact ⟨_, hargs, rfl⟩

/-- Recorded host calls, with their counts as numbers. -/
def counted (calls : List (String × UInt8)) : List (String × Nat) :=
  calls.map fun key => (key.1, key.2.toNat)

theorem injective_count : Function.Injective fun key : String × UInt8 => (key.1, key.2.toNat) := by
  rintro ⟨s, m⟩ ⟨t, n⟩ h
  obtain ⟨hs, hn⟩ := Prod.mk.inj h
  exact Prod.ext hs (UInt8.toNat_inj.1 hn)

theorem counted_calls (e : Expr) :
    counted e.calls = firsts (e.signatures.map fun key => (key.1, min key.2 255)) := by
  rw [counted, calls, map_firsts injective_count, signatures, List.map_filterMap,
    List.map_filterMap]
  congr 1
  refine List.filterMap_congr fun m _ => ?_
  cases m with
  | call name args =>
    have hle : min args.length 255 < 256 := by omega
    simp [callKey?, signature?, UInt8.toNat_ofNat', Nat.mod_eq_of_lt hle]
  | _ => rfl

end Expr

theorem Definition.hostCalls_of_body {d : Definition} {body : Expr} (h : d.body = .ok body) :
    d.hostCalls = body.calls := by
  unfold Definition.body at h
  split at h
  next e hout =>
    cases h
    rw [hostCalls, hout, List.flatMap_singleton, Expr.calls,
      Expr.firsts_of_nodup (Expr.nodup_firsts _)]
  next => cases h

end Pointwise

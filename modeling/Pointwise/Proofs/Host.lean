import Pointwise.Host

/-!
# Registered host functions

A table that is filled by registration alone has every function under its own arity.
-/

namespace Pointwise

namespace NativeFn

theorem result?_isSome (f : NativeFn) {args : List (BitVec 64)} (h : f.arity.toNat = args.length) :
    (f.result? args).isSome := by
  match f, args with
  | unary f, [x] => rfl
  | binary f, [x, y] => rfl
  | ternary f, [x, y, z] => rfl
  | unary f, [] | unary f, _ :: _ :: _ => simp [arity] at h
  | binary f, [] | binary f, [_] | binary f, _ :: _ :: _ :: _ => simp [arity] at h
  | ternary f, [] | ternary f, [_] | ternary f, [_, _] | ternary f, _ :: _ :: _ :: _ :: _ =>
    simp [arity] at h

theorem call_eq_ok (f : NativeFn) {args : List (BitVec 64)} (h : f.arity.toNat = args.length) :
    ∃ y, f.result? args = some y ∧ f.call args = .ok y := by
  obtain ⟨y, hy⟩ := Option.isSome_iff_exists.1 (f.result?_isSome h)
  exact ⟨y, hy, by simp [call, hy]⟩

end NativeFn

namespace HostTable

/-- The tables that registration makes. -/
inductive Registered : HostTable → Prop
  | empty : Registered .empty
  | register {hosts hosts' : HostTable} {name : String} {f : HostFn} :
    Registered hosts → hosts.register name f = .ok hosts' → Registered hosts'

theorem register_eq_ok {hosts hosts' : HostTable} {name : String} {f : HostFn}
    (h : hosts.register name f = .ok hosts') :
    hosts.get? name f.arity = none ∧ hosts' = ⟨((name, f.arity), f) :: hosts.entries⟩ := by
  unfold register at h
  split at h
  · cases h
  · rename_i hnone
    exact ⟨by simpa using hnone, by cases h; rfl⟩

theorem Registered.arity_eq {hosts : HostTable} (h : hosts.Registered) {name : String} {n : UInt8}
    {f : HostFn} (hf : hosts.get? name n = some f) : f.arity = n := by
  induction h with
  | empty => simp [get?, HostTable.empty] at hf
  | @register hosts hosts' name' g _ hr ih =>
    obtain ⟨-, rfl⟩ := register_eq_ok hr
    rw [get?, List.lookup_cons] at hf
    by_cases hk : (name, n) = (name', g.arity)
    · rw [beq_iff_eq.2 hk] at hf
      obtain ⟨-, rfl⟩ := Prod.mk.inj hk
      simp_all
    · rw [beq_eq_false_iff_ne.2 hk] at hf
      exact ih hf

theorem Registered.arity_toNat {hosts : HostTable} (h : hosts.Registered) {name : String}
    {n : Nat} {f : NativeFn} (hn : n ≤ 255)
    (hf : hosts.get? name (UInt8.ofNat n) = some (.native f)) : f.arity.toNat = n := by
  have : f.arity = UInt8.ofNat n := h.arity_eq hf
  rw [this, UInt8.toNat_ofNat']
  exact Nat.mod_eq_of_lt (by omega)

end HostTable

end Pointwise

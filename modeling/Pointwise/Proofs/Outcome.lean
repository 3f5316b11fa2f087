import Pointwise.Error

/-!
# Outcomes

What is said of a computation that gives a result or an error, and how it is carried through the
steps of a longer one.
-/

namespace Pointwise

variable {α β : Type}

theorem bind_eq_ok {x : Except Error α} {f : α → Except Error β} {b : β} :
    x >>= f = .ok b ↔ ∃ a, x = .ok a ∧ f a = .ok b := by
  cases x with
  | error e => simp [bind, Except.bind]
  | ok a => simp [bind, Except.bind]

theorem bind_eq_error {x : Except Error α} {f : α → Except Error β} {e : Error} :
    x >>= f = .error e ↔ x = .error e ∨ ∃ a, x = .ok a ∧ f a = .error e := by
  cases x with
  | error e => simp [bind, Except.bind]
  | ok a => simp [bind, Except.bind]

@[simp] theorem ok_bind (a : α) (f : α → Except Error β) : (Except.ok a >>= f) = f a := rfl

@[simp] theorem error_bind (e : Error) (f : α → Except Error β) :
    (Except.error e >>= f) = .error e := rfl

@[simp] theorem throw_eq_error (e : Error) : (throw e : Except Error α) = .error e := rfl

@[simp] theorem pure_eq_ok (a : α) : (pure a : Except Error α) = .ok a := rfl

@[simp] theorem map_ok (f : α → β) (a : α) :
    (Except.ok a : Except Error α).map f = .ok (f a) := rfl

@[simp] theorem map_error (f : α → β) (e : Error) :
    (Except.error e : Except Error α).map f = .error e := rfl

instance [DecidableEq α] (a : α) : (x : Except Error α) → Decidable (x = .ok a)
  | .ok b => decidable_of_iff (b = a) (Except.ok.injEq b a).symm.to_iff
  | .error _ => .isFalse nofun

instance : (x : Except Error α) → Decidable (∃ a, x = .ok a)
  | .ok a => .isTrue ⟨a, rfl⟩
  | .error _ => .isFalse nofun

/-- A result is good, or an error is bad. -/
def Ends (r : Except Error α) (good : α → Prop) (bad : Error → Prop) : Prop :=
  match r with
  | .ok a => good a
  | .error e => bad e

namespace Ends

variable {r : Except Error α} {good : α → Prop} {bad : Error → Prop}

theorem ok {a : α} (h : good a) : Ends (.ok a) good bad := h

theorem error {e : Error} (h : bad e) : Ends (.error e : Except Error α) good bad := h

theorem mono {good' : α → Prop} {bad' : Error → Prop} (h : Ends r good bad)
    (hg : ∀ a, good a → good' a) (hb : ∀ e, bad e → bad' e) : Ends r good' bad' := by
  cases r with
  | ok a => exact hg a h
  | error e => exact hb e h

theorem bind {f : α → Except Error β} {good' : β → Prop} (h : Ends r good bad)
    (hf : ∀ a, good a → Ends (f a) good' bad) : Ends (r >>= f) good' bad := by
  cases r with
  | ok a => exact hf a h
  | error e => exact h

theorem map {f : α → β} {good' : β → Prop} (h : Ends r good bad)
    (hf : ∀ a, good a → good' (f a)) : Ends (r.map f) good' bad := by
  cases r with
  | ok a => exact hf a h
  | error e => exact h

theorem mapM {f : α → Except Error β} {as : List α}
    (h : ∀ a ∈ as, Ends (f a) (fun _ => True) bad) : Ends (as.mapM f) (fun _ => True) bad := by
  induction as with
  | nil => exact ok trivial
  | cons a as ih =>
    rw [List.forall_mem_cons] at h
    rw [List.mapM_cons]
    exact h.1.bind fun _ _ => (ih h.2).bind fun _ _ => ok trivial

theorem of_ok {a : α} (h : Ends r good bad) (hr : r = .ok a) : good a := by
  subst hr; exact h

theorem of_error {e : Error} (h : Ends r good bad) (hr : r = .error e) : bad e := by
  subst hr; exact h

end Ends

end Pointwise

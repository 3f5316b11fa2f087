import Pointwise.Proofs.Outcome
import Pointwise.Reduction

/-!
# Computations that keep a state

What a computation answers and what state it leaves, and how both go through the steps of a longer
one.
-/

namespace Pointwise.Stateful

variable {σ α β : Type}

def answer (act : Stateful σ α) (s : σ) : Except Error α := (act.run.run s).1

/-- The state that is left, also by an error. -/
def after (act : Stateful σ α) (s : σ) : σ := (act.run.run s).2

@[simp] theorem answer_pure (a : α) (s : σ) : answer (pure a) s = .ok a := rfl
@[simp] theorem after_pure (a : α) (s : σ) : after (pure a) s = s := rfl

@[simp] theorem answer_throw (e : Error) (s : σ) :
    answer (throw e : Stateful σ α) s = .error e := rfl
@[simp] theorem after_throw (e : Error) (s : σ) : after (throw e : Stateful σ α) s = s := rfl

@[simp] theorem answer_liftM (r : Except Error α) (s : σ) :
    answer (liftM r : Stateful σ α) s = r := by
  cases r <;> rfl
@[simp] theorem after_liftM (r : Except Error α) (s : σ) :
    after (liftM r : Stateful σ α) s = s := by
  cases r <;> rfl

@[simp] theorem answer_get (s : σ) : answer (get : Stateful σ σ) s = .ok s := rfl
@[simp] theorem after_get (s : σ) : after (get : Stateful σ σ) s = s := rfl

@[simp] theorem answer_set (t s : σ) : answer (set t : Stateful σ PUnit) s = .ok ⟨⟩ := rfl
@[simp] theorem after_set (t s : σ) : after (set t : Stateful σ PUnit) s = t := rfl

@[simp] theorem answer_modify (f : σ → σ) (s : σ) :
    answer (modify f : Stateful σ PUnit) s = .ok ⟨⟩ := rfl
@[simp] theorem after_modify (f : σ → σ) (s : σ) :
    after (modify f : Stateful σ PUnit) s = f s := rfl

theorem run_bind (x : Stateful σ α) (f : α → Stateful σ β) (s : σ) :
    (x >>= f).run.run s = match x.run.run s with
      | (.ok a, t) => (f a).run.run t
      | (.error e, t) => (.error e, t) := by
  rw [ExceptT.run_bind, StateT.run_bind]
  rcases x.run.run s with ⟨_ | a, t⟩ <;> rfl

@[simp] theorem answer_bind (x : Stateful σ α) (f : α → Stateful σ β) (s : σ) :
    answer (x >>= f) s = answer x s >>= fun a => answer (f a) (after x s) := by
  unfold answer after
  rw [run_bind]
  rcases x.run.run s with ⟨_ | a, t⟩ <;> rfl

@[simp] theorem after_bind (x : Stateful σ α) (f : α → Stateful σ β) (s : σ) :
    after (x >>= f) s = match answer x s with
      | .ok a => after (f a) (after x s)
      | .error _ => after x s := by
  unfold answer after
  rw [run_bind]
  rcases x.run.run s with ⟨_ | a, t⟩ <;> rfl

@[simp] theorem answer_map (f : α → β) (x : Stateful σ α) (s : σ) :
    answer (f <$> x) s = (answer x s).map f := by
  rw [map_eq_pure_bind, answer_bind]
  cases answer x s <;> rfl

@[simp] theorem after_map (f : α → β) (x : Stateful σ α) (s : σ) :
    after (f <$> x) s = after x s := by
  rw [map_eq_pure_bind, after_bind]
  cases answer x s <;> rfl

@[simp] theorem answer_discard (x : Stateful σ α) (s : σ) :
    answer (discard x) s = (answer x s).map fun _ => ⟨⟩ := answer_map _ x s

@[simp] theorem after_discard (x : Stateful σ α) (s : σ) : after (discard x) s = after x s :=
  after_map _ x s

theorem throw_then (e : Error) (f : α → Stateful σ β) :
    (throw e : Stateful σ α) >>= f = throw e := rfl

theorem bind_congr_of_answer {x : Stateful σ α} {f g : α → Stateful σ β}
    (h : ∀ s a, answer x s = .ok a → f a = g a) : x >>= f = x >>= g := by
  refine ExceptT.ext (StateT.ext fun s => ?_)
  show (x >>= f).run.run s = (x >>= g).run.run s
  rw [run_bind, run_bind]
  rcases hx : x.run.run s with ⟨e | a, t⟩
  · rfl
  · exact congrArg (fun act => act.run.run t) (h s a (congrArg Prod.fst hx))

theorem foldlM_congr {f g : β → α → Stateful σ β} (P : β → Prop) {l : List α}
    (hfg : ∀ b, P b → ∀ x ∈ l, f b x = g b x)
    (hP : ∀ b, P b → ∀ x ∈ l, ∀ s b', answer (g b x) s = .ok b' → P b') {b : β} (hb : P b) :
    l.foldlM f b = l.foldlM g b := by
  induction l generalizing b with
  | nil => rfl
  | cons x l ih =>
    rw [List.foldlM_cons, List.foldlM_cons, hfg b hb x (.head _)]
    refine bind_congr_of_answer fun s b' hb' => ?_
    exact ih (fun b hb y hy => hfg b hb y (.tail _ hy)) (fun b hb y hy => hP b hb y (.tail _ hy))
      (hP b hb x (.head _) s b' hb')

/-- What holds of the answer, or of the error, and of the state that is left with it. -/
def Ensures (act : Stateful σ α) (s : σ) (good : α → σ → Prop) (bad : Error → σ → Prop) : Prop :=
  Ends (answer act s) (good · (after act s)) (bad · (after act s))

namespace Ensures

variable {act : Stateful σ α} {s : σ} {good : α → σ → Prop} {bad : Error → σ → Prop}

theorem trivial (act : Stateful σ α) (s : σ) :
    Ensures act s (fun _ _ => True) (fun _ _ => True) := by
  unfold Ensures Ends
  split <;> exact True.intro

theorem pure {a : α} (h : good a s) : Ensures (pure a) s good bad := h

theorem throw {e : Error} (h : bad e s) : Ensures (throw e : Stateful σ α) s good bad := h

theorem mono {good' : α → σ → Prop} {bad' : Error → σ → Prop} (h : Ensures act s good bad)
    (hg : ∀ a t, good a t → good' a t) (hb : ∀ e t, bad e t → bad' e t) :
    Ensures act s good' bad' :=
  Ends.mono h (fun a => hg a _) (fun e => hb e _)

theorem bind {f : α → Stateful σ β} {good' : β → σ → Prop} (h : Ensures act s good bad)
    (hf : ∀ a t, good a t → Ensures (f a) t good' bad) : Ensures (act >>= f) s good' bad := by
  unfold Ensures at h ⊢
  rw [answer_bind, after_bind]
  cases hact : answer act s with
  | error e =>
    rw [hact] at h
    exact h
  | ok a =>
    rw [hact] at h
    exact hf a _ h

theorem and_of_ok {P : α → Prop} (h : Ensures act s good bad)
    (hP : ∀ a, answer act s = .ok a → P a) : Ensures act s (fun a t => P a ∧ good a t) bad := by
  unfold Ensures at h ⊢
  cases hact : answer act s with
  | ok a =>
    rw [hact] at h
    exact ⟨hP a hact, h⟩
  | error e =>
    rw [hact] at h
    exact h

/-- The rule of a loop, whose invariant may speak of what is still to be done. -/
theorem foldlM {f : β → α → Stateful σ β} (inv : List α → β → σ → Prop)
    (hf : ∀ x l b t, inv (x :: l) b t → Ensures (f b x) t (inv l) bad) {l : List α} {b : β}
    (h : inv l b s) : Ensures (l.foldlM f b) s (inv []) bad := by
  induction l generalizing b s with
  | nil => exact h
  | cons x l ih =>
    rw [List.foldlM_cons]
    exact (hf x l b s h).bind fun b t ht => ih ht

end Ensures

/-- The computation does not fail, and this holds of its answer and of the state that is left. -/
def Succeeds (act : Stateful σ α) (s : σ) (good : α → σ → Prop) : Prop :=
  Ensures act s good fun _ _ => False

namespace Succeeds

variable {act : Stateful σ α} {s : σ} {good : α → σ → Prop}

theorem exists_ok (h : Succeeds act s good) :
    ∃ a, answer act s = .ok a ∧ good a (after act s) := by
  unfold Succeeds Ensures at h
  cases hact : answer act s with
  | ok a =>
    rw [hact] at h
    exact ⟨a, rfl, h⟩
  | error e =>
    rw [hact] at h
    exact h.elim

theorem pure {a : α} (h : good a s) : Succeeds (pure a) s good := Ensures.pure h

theorem mono {good' : α → σ → Prop} (h : Succeeds act s good) (hg : ∀ a t, good a t → good' a t) :
    Succeeds act s good' :=
  Ensures.mono h hg fun _ _ => id

theorem bind {f : α → Stateful σ β} {good' : β → σ → Prop} (h : Succeeds act s good)
    (hf : ∀ a t, good a t → Succeeds (f a) t good') : Succeeds (act >>= f) s good' :=
  Ensures.bind h hf

end Succeeds

/-! ## Invariants -/

/-- A property of states survives a computation, whether it fails or not. -/
def Keeps (P : σ → Prop) (act : Stateful σ α) : Prop :=
  ∀ s, P s → Ensures act s (fun _ => P) (fun _ => P)

namespace Keeps

variable {P : σ → Prop} {act : Stateful σ α}

theorem after (h : Keeps P act) {s : σ} (hs : P s) : P (after act s) := by
  have hact := h s hs
  unfold Ensures at hact
  cases hr : answer act s with
  | ok a =>
    rw [hr] at hact
    exact hact
  | error e =>
    rw [hr] at hact
    exact hact

theorem of_after (h : ∀ s, P s → P (Stateful.after act s)) : Keeps P act := by
  intro s hs
  unfold Ensures
  cases answer act s with
  | ok a => exact h s hs
  | error e => exact h s hs

theorem pure {a : α} : Keeps P (pure a) := fun _ hs => Ensures.pure hs

theorem throw_bind {e : Error} {f : α → Stateful σ β} :
    Keeps P ((throw e : Stateful σ α) >>= f) := by
  intro s hs
  have hthrow : Ensures (throw e : Stateful σ α) s (fun _ _ => False) (fun _ => P) :=
    Ensures.throw hs
  exact hthrow.bind fun _ _ h => h.elim

theorem liftM {r : Except Error α} : Keeps P (liftM r : Stateful σ α) :=
  of_after fun s hs => by rwa [after_liftM]

theorem get : Keeps P (get : Stateful σ σ) := of_after fun _ hs => hs

theorem bind {f : α → Stateful σ β} (h : Keeps P act) (hf : ∀ a, Keeps P (f a)) :
    Keeps P (act >>= f) :=
  fun s hs => (h s hs).bind fun a t ht => hf a t ht

theorem discard (h : Keeps P act) : Keeps P (discard act) :=
  of_after fun s hs => (after_discard act s).symm ▸ h.after hs

end Keeps

/-! ## Answers that do not depend on the state -/

/-- From the states of an invariant a result is answered, and it is kept unless that is an error. -/
def Answers (inv : σ → Prop) (act : Stateful σ α) (r : Except Error α) : Prop :=
  ∀ s, inv s → Ensures act s (fun a t => r = .ok a ∧ inv t) (fun e _ => r = .error e)

namespace Answers

variable {inv : σ → Prop} {act : Stateful σ α} {r : Except Error α}

theorem answer_eq (h : Answers inv act r) {s : σ} (hs : inv s) : answer act s = r := by
  have hact := h s hs
  unfold Ensures at hact
  cases hr : answer act s with
  | ok a =>
    rw [hr] at hact
    exact hact.1.symm
  | error e =>
    rw [hr] at hact
    exact hact.symm

theorem succeeds {a : α} (h : Answers inv act (.ok a)) {s : σ} (hs : inv s) :
    Succeeds act s fun b t => b = a ∧ inv t := by
  refine Ensures.mono (h s hs) ?_ ?_
  · rintro b t ⟨hb, ht⟩
    cases hb
    exact ⟨rfl, ht⟩
  · rintro e t ⟨⟩

theorem pure (a : α) : Answers inv (pure a) (.ok a) := fun _ hs => Ensures.pure ⟨rfl, hs⟩

theorem bind {f : α → Stateful σ β} {g : α → Except Error β} (h : Answers inv act r)
    (hf : ∀ a, r = .ok a → Answers inv (f a) (g a)) : Answers inv (act >>= f) (r >>= g) := by
  intro s hs
  cases r with
  | ok a =>
    refine Ensures.bind ((h s hs).mono (fun b t hb => hb) ?_) ?_
    · rintro e _ ⟨⟩
    · rintro _ t ⟨⟨⟩, ht⟩
      exact hf a rfl t ht
  | error e =>
    refine Ensures.bind ((h s hs).mono (fun b t hb => hb) ?_) ?_
    · rintro e _ ⟨⟩
      rfl
    · rintro _ _ ⟨⟨⟩, _⟩

theorem map (h : Answers inv act r) (f : α → β) :
    Answers inv (do return f (← act)) (r.map f) := by
  have hbind := h.bind (g := fun a => .ok (f a)) fun a _ => pure (f a)
  cases r with
  | ok a => exact hbind
  | error e => exact hbind

theorem foldlM {f : β → α → Stateful σ β} {g : β → α → Except Error β} {P : β → Prop}
    {l : List α} (hf : ∀ b, P b → ∀ x ∈ l, Answers inv (f b x) (g b x))
    (hg : ∀ b, P b → ∀ x ∈ l, ∀ b', g b x = .ok b' → P b') {b : β} (hb : P b) :
    Answers inv (l.foldlM f b) (l.foldlM g b) := by
  induction l generalizing b with
  | nil => exact pure b
  | cons x l ih =>
    rw [List.foldlM_cons, List.foldlM_cons]
    refine (hf b hb x (.head _)).bind fun b' hb' => ?_
    exact ih (fun b hb y hy => hf b hb y (.tail _ hy)) (fun b hb y hy => hg b hb y (.tail _ hy))
      (hg b hb x (.head _) b' hb')

end Answers

/-! ## Two computations side by side -/

variable {τ : Type}

/-- From related states both computations answer the same, and related states are left. -/
def Agree (R : σ → τ → Prop) (x : Stateful σ α) (y : Stateful τ α) : Prop :=
  ∀ s t, R s t → answer x s = answer y t ∧ R (after x s) (after y t)

namespace Agree

variable {R : σ → τ → Prop} {x : Stateful σ α} {y : Stateful τ α}

theorem pure (a : α) : Agree R (pure a) (pure a) := fun _ _ h => ⟨rfl, h⟩

theorem throw (e : Error) : Agree R (throw e : Stateful σ α) (throw e) := fun _ _ h => ⟨rfl, h⟩

theorem liftM (r : Except Error α) : Agree R (liftM r : Stateful σ α) (liftM r) := by
  intro s t h
  simpa using h

theorem bind_of {f : α → Stateful σ β} {g : α → Stateful τ β} (h : Agree R x y)
    (hfg : ∀ s t a, R s t → answer x s = .ok a → answer y t = .ok a →
      answer (f a) (after x s) = answer (g a) (after y t) ∧
        R (after (f a) (after x s)) (after (g a) (after y t))) :
    Agree R (x >>= f) (y >>= g) := by
  intro s t hst
  obtain ⟨hanswer, hafter⟩ := h s t hst
  simp only [answer_bind, after_bind]
  cases hx : answer x s with
  | error e =>
    rw [← hanswer, hx]
    exact ⟨rfl, hafter⟩
  | ok a =>
    rw [← hanswer, hx]
    exact hfg s t a hst hx (hanswer ▸ hx)

theorem bind {f : α → Stateful σ β} {g : α → Stateful τ β} (h : Agree R x y)
    (hfg : ∀ a, Agree R (f a) (g a)) : Agree R (x >>= f) (y >>= g) :=
  h.bind_of fun s t a hst _ _ => hfg a _ _ (h s t hst).2

theorem map_bind {γ : Type} {y : Stateful τ β} {g : α → β} {f : α → Stateful σ γ}
    {f' : β → Stateful τ γ} (h : Agree R (g <$> x) y)
    (hf : ∀ s a, answer x s = .ok a → Agree R (f a) (f' (g a))) :
    Agree R (x >>= f) (y >>= f') := by
  intro s t hst
  obtain ⟨hanswer, hafter⟩ := h s t hst
  rw [answer_map] at hanswer
  rw [after_map] at hafter
  simp only [answer_bind, after_bind, ← hanswer]
  cases hx : answer x s with
  | error e => exact ⟨rfl, hafter⟩
  | ok a => exact hf s a hx _ _ hafter

theorem throw_bind (e : Error) {f : α → Stateful σ β} {g : α → Stateful τ β} :
    Agree R (MonadExcept.throw e >>= f) (MonadExcept.throw e >>= g) := by
  intro s t h
  exact ⟨rfl, h⟩

theorem map (h : Agree R x y) (f : α → β) : Agree R (f <$> x) (f <$> y) := by
  intro s t hst
  obtain ⟨hanswer, hafter⟩ := h s t hst
  simp only [answer_map, after_map, hanswer]
  exact ⟨trivial, hafter⟩

theorem discard (h : Agree R x y) : Agree R (discard x) (discard y) := h.map fun _ => PUnit.unit

theorem get_bind {f : σ → Stateful σ β} {g : τ → Stateful τ β}
    (hfg : ∀ s t, R s t → Agree R (f s) (g t)) : Agree R (get >>= f) (get >>= g) :=
  fun s t hst => hfg s t hst s t hst

theorem foldlM {f : β → α → Stateful σ β} {g : β → α → Stateful τ β}
    (hfg : ∀ b a, Agree R (f b a) (g b a)) (l : List α) (b : β) :
    Agree R (l.foldlM f b) (l.foldlM g b) := by
  induction l generalizing b with
  | nil => exact pure b
  | cons a l ih =>
    simp only [List.foldlM_cons]
    exact (hfg b a).bind ih

end Agree

/-- An invariant is a relation between a state and itself. -/
theorem keeps_iff_agree {P : σ → Prop} {act : Stateful σ α} :
    Keeps P act ↔ Agree (fun s t => s = t ∧ P s) act act := by
  constructor
  · rintro h s _ ⟨rfl, hs⟩
    exact ⟨rfl, rfl, h.after hs⟩
  · intro h
    exact .of_after fun s hs => (h s s ⟨rfl, hs⟩).2.2

end Pointwise.Stateful

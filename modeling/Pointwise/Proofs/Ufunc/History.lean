import Pointwise.Proofs.Ufunc.Registration

/-!
# Answers without a history

Loops and adapters are kept so that they need not be made again. As long as a function is not frozen
and no return type is named, they are what would be made anew, so that calls and reductions do not
depend on what was asked before.
-/

namespace Pointwise.Ufunc

open Stateful

/-- A function that has grown from one without loops, by loops whose return types were inferred. -/
structure Inferred (f u : Ufunc) : Prop where
  start : f.table = .empty
  grown : Grown (· = none) f u
  frozen : u.frozen = false

variable {f u v : Ufunc} {args : List DType} {l : Loop}

namespace Inferred

theorem new (d : Definition) (hosts : HostTable) (identity : Option Scalar) (options : Options) :
    Inferred (new d hosts identity options) (new d hosts identity options) :=
  ⟨rfl, .refl (coherent_new d hosts identity options), rfl⟩

theorem withLoop (h : Inferred f u) (hl : u.Compiles args none l) : Inferred f (u.withLoop l) :=
  ⟨h.start, h.grown.withLoop rfl hl, h.frozen⟩

theorem stable (f : Ufunc) : Stable (Inferred f) where
  coherent h := h.grown.coherent
  withLoop := withLoop
  withAdapters h hcoherent := ⟨h.start, h.grown.withAdapters hcoherent, h.frozen⟩

theorem loop (h : Inferred f u) (hl : u.table.get? args = some l) :
    args.length = f.nin ∧ Loop.compile f.definition f.hosts f.options args none = .ok l := by
  have hlength := (h.grown.coherent.loop hl).2.1
  unfold nin at hlength
  rw [h.grown.definition] at hlength
  refine ⟨hlength, ?_⟩
  rcases h.grown.loop args l hl with hstart | ⟨_, rfl, hcompile⟩
  · rw [h.start] at hstart
    cases hstart
  · exact hcompile

theorem find?_eq (h : Inferred f u) (args : List DType) : u.find? args = u.table.get? args :=
  find?_of_not_frozen h.frozen args

end Inferred

theorem Inferred.compile_of_serves (h : Inferred f u) (hserves : Serves u args l v) :
    Loop.compile f.definition f.hosts f.options args none = .ok l := by
  cases hserves with
  | found hfound =>
    rw [h.find?_eq] at hfound
    exact (h.loop hfound).2
  | compiled _ hl =>
    have hcompile := hl.compiled
    rwa [h.grown.definition, h.grown.hosts, h.grown.options] at hcompile

/-- The loop for argument types, compiled even if it is there. -/
def compileAnew (f : Ufunc) (args : List DType) : Except Error Loop :=
  if args.length ≠ f.nin then .error (f.arityError args.length)
  else Loop.compile f.definition f.hosts f.options args none

namespace Inferred

theorem compileAnew_eq (h : Inferred f u) (hl : u.table.get? args = some l) :
    compileAnew f args = .ok l := by
  obtain ⟨hlength, hcompile⟩ := h.loop hl
  unfold compileAnew
  rw [if_neg (not_not_intro hlength), hcompile]

theorem answer_compileFor (h : Inferred f u) (hfresh : u.table.get? args = none) :
    answer (compileFor args none) u = compileAnew f args := by
  have hnin : u.nin = f.nin := congrArg Definition.nin h.grown.definition
  have harity : u.arityError args.length = f.arityError args.length := by
    unfold arityError nargs name nin nout
    rw [h.grown.definition]
  have hlookup : u.lookupExact args none = .ok none := by
    unfold lookupExact
    rw [hfresh]
  unfold compileAnew
  rw [← h.grown.definition, ← h.grown.hosts, ← h.grown.options, ← hnin, ← harity]
  by_cases hlength : args.length = u.nin
  · rw [if_neg (not_not_intro hlength)]
    cases hcompile : Loop.compile u.definition u.hosts u.options args none with
    | error e =>
      unfold compileFor
      simp [h.frozen, hlength, hlookup, hcompile]
    | ok l =>
      have hl : u.Compiles args none l := ⟨h.frozen, hlength, hfresh, hcompile⟩
      exact hl.compileFor.1
  · unfold compileFor
    simp [h.frozen, hlength]

theorem answer_resolve (h : Inferred f u) (types : List OperandType) :
    answer (resolve types) u = (do
      let shape ← CallShape.of f.name f.nin f.nout types
      let l ← compileAnew f (inputTypes shape)
      (f.outputTypes shape l.ret).map fun outputs => (⟨outputs, types⟩, l)) := by
  have hname : u.name = f.name := congrArg Definition.name h.grown.definition
  have hnin : u.nin = f.nin := congrArg Definition.nin h.grown.definition
  have hnout : u.nout = f.nout := congrArg Definition.nout h.grown.definition
  have houtputs : u.outputTypes = f.outputTypes := by
    unfold outputTypes
    rw [hname, hnout]
  have htypes : ∀ shape : CallShape, shape.dtypes.take (shape.dtypes.length -
      shape.givenOutputs.length) = inputTypes shape := fun _ => rfl
  unfold resolve
  simp only [answer_bind, answer_get, after_get, answer_liftM, after_liftM, ok_bind, hname, hnin,
    hnout, houtputs, htypes]
  cases CallShape.of f.name f.nin f.nout types with
  | error e => rfl
  | ok shape =>
    -- As nothing is promoted, the table has a loop for these types or none at all.
    simp only [ok_bind, h.find?_eq]
    cases hget : u.table.get? (inputTypes shape) with
    | some l => simp [h.compileAnew_eq hget]
    | none => simp [h.frozen, h.answer_compileFor hget]

theorem congruent (f : Ufunc) : Congruent fun u v => Inferred f u ∧ Inferred f v where
  coherent h := ⟨h.1.grown.coherent, h.2.grown.coherent⟩
  definition h := h.1.grown.definition.trans h.2.grown.definition.symm
  identity h := h.1.grown.identity.trans h.2.grown.identity.symm
  resolve types u v h := by
    have hkeeps := (stable f).keeps_resolve types
    refine ⟨?_, hkeeps.after h.1, hkeeps.after h.2⟩
    rw [h.1.answer_resolve, h.2.answer_resolve]
  adapterFor h hu hv _ := ⟨(stable f).after_adapterFor h.1 hu, (stable f).after_adapterFor h.2 hv⟩

end Inferred

/-- The function and the adapter that it keeps, after steps of a fold. -/
def foldSteps (s : Ufunc × LastStep) : List (Scalar × Scalar) → Ufunc × LastStep
  | [] => s
  | (total, x) :: steps => foldSteps (after (foldStep total x) s) steps

theorem Inferred.foldSteps {s : Ufunc × LastStep} (h : Inferred f s.1) (hs : Remembers s)
    (steps : List (Scalar × Scalar)) :
    Inferred f (foldSteps s steps).1 ∧ Remembers (foldSteps s steps) := by
  induction steps generalizing s with
  | nil => exact ⟨h, hs⟩
  | cons step steps ih =>
    obtain ⟨total, x⟩ := step
    have hagree := (congruent f).foldStep total x s s ⟨⟨h, h⟩, hs, hs⟩
    exact ih hagree.2.1.1 hagree.2.2.1

/--
Calls and reductions are answered as a new function answers them, whatever has been asked before, if
no return type was named and the function was not frozen. Each adapter that is kept, by the function
or by a reduction between two steps, is what would be made anew from a loop that is compiled anew.
-/
theorem answers_as_new (d : Definition) (hosts : HostTable) (identity : Option Scalar)
    (options : Options) {requests : List Request}
    (hrequests : ∀ r ∈ requests, r ≠ .freeze ∧ r.ret? = none) {u : Ufunc}
    (hu : u = (new d hosts identity options).afterAll requests) :
    (∀ types, answer (typeCall types) u = answer (typeCall types) (new d hosts identity options)) ∧
    (∀ args keywords, answer (call args keywords) u =
      answer (call args keywords) (new d hosts identity options)) ∧
    (∀ a reduction, answer (reduce a reduction) u =
      answer (reduce a reduction) (new d hosts identity options)) ∧
    (∀ outer ret inner a, u.adapters.lookup (outer, ret, inner) = some a →
      ∃ l, Loop.compile d hosts options inner none = .ok l ∧
        Adapter.make ⟨outer, some ret⟩ l = .ok a) ∧
    (d.nin = 2 → ∀ steps acc elem a, (foldSteps (u, none) steps).2 = some ((acc, elem), a) →
      ∃ l, Loop.compile d hosts options [acc, elem] none = .ok l ∧
        Adapter.make ⟨[acc, elem], some acc⟩ l = .ok a) := by
  have hstart := Inferred.new d hosts identity options
  have hinferred : Inferred (new d hosts identity options) u := by
    rw [hu]
    refine keeps_afterAll (fun r hr => ?_) hstart
    obtain ⟨hfreeze, hret⟩ := hrequests r hr
    refine (Inferred.stable _).keeps_perform r ?_ fun h => absurd h hfreeze
    rw [hret]
    exact Inferred.withLoop
  have hcongruent := Inferred.congruent (new d hosts identity options)
  refine ⟨?types, ?calls, ?reductions, ?adapters, ?steps⟩
  case types =>
    intro types
    exact (hcongruent.typeCall types _ _ ⟨hinferred, hstart⟩).1
  case calls =>
    intro args keywords
    exact (hcongruent.call args keywords _ _ ⟨hinferred, hstart⟩).1
  case reductions =>
    intro a reduction
    exact (hcongruent.reduce a reduction _ _ ⟨hinferred, hstart⟩).1
  case adapters =>
    intro outer ret inner a ha
    obtain ⟨l, hget, hmake⟩ := hinferred.grown.coherent.adapter ha
    exact ⟨l, (hinferred.loop hget).2, hmake⟩
  case steps =>
    intro hin steps acc elem a ha
    have hnin : u.nin = 2 := (congrArg Definition.nin hinferred.grown.definition).trans hin
    obtain ⟨hafter, hremembers⟩ := hinferred.foldSteps (s := (u, none)) (.start hnin) steps
    -- The fold would make the same adapter again, from the loop that now serves the types.
    obtain ⟨hanswer, -⟩ := hremembers.last acc elem a ha
    rcases foldAdapter_cases hafter.grown.coherent hremembers.nin acc elem with
      ⟨l, u', hserves, hadapter, -⟩ | ⟨e, herror, -⟩
    · have hcompile := hafter.compile_of_serves hserves
      obtain ⟨_, _, _, hargs, _⟩ := Loop.compile_eq_ok hcompile
      cases hanswer.symm.trans hadapter
      refine ⟨l, hcompile, ?_⟩
      simp [Adapter.make, hargs]
    · rw [hanswer] at herror
      cases herror

/-! ## A function with a history -/

/-- A loop, a request that fails, a call and a reduction. -/
def history : List Request :=
  [.add "(int16, int16)", .compileFor [.bool] none,
    .call [.scalar (.int64 5), .scalar (.bool true)] [],
    .reduce NDArray.threeByTwo ⟨.index 0, some .int64, none⟩]

theorem answers_as_new_difference :
    (∀ r ∈ history, r ≠ .freeze ∧ r.ret? = none) ∧
      (difference.afterAll history).table.order =
        [[.int16, .int16], [.int64, .bool], [.int64, .int16]] ∧
      (∀ args keywords, answer (call args keywords) (difference.afterAll history) =
        answer (call args keywords) difference) ∧
      ∀ a reduction, answer (reduce a reduction) (difference.afterAll history) =
        answer (reduce a reduction) difference := by
  have hhistory : ∀ r ∈ history, r ≠ .freeze ∧ r.ret? = none := by
    have hret : ∀ r ∈ history, r.ret? = none := by decide +kernel
    intro r hr
    refine ⟨?_, hret r hr⟩
    rintro rfl
    simp [history] at hr
  obtain ⟨-, hcalls, hreductions, -⟩ :=
    answers_as_new .difference .empty none .default hhistory rfl
  exact ⟨hhistory, by decide +kernel, hcalls, hreductions⟩

end Pointwise.Ufunc

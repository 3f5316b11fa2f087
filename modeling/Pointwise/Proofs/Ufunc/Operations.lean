import Pointwise.Proofs.Reduction.Runs
import Pointwise.Proofs.Ufunc.Loops
import Pointwise.Ufunc.Request

/-!
# What operations keep

All operations are made of two: the loop for some argument types is found or compiled, and an
adapter of it is found or made. So whatever these two keep is kept by all, and two functions on
which these two agree answer all calls alike.
-/

namespace Pointwise.Ufunc

open Stateful

/-- A loop that is found under its own argument types. -/
def Has (u : Ufunc) (l : Loop) : Prop := u.table.get? l.args = some l

/-- Every loop is found under its argument types, and every adapter is what would be made anew. -/
structure Coherent (u : Ufunc) : Prop where
  loop : ∀ {args l}, u.table.get? args = some l →
    l.args = args ∧ args.length = u.nin ∧ u.nout = 1
  adapter : ∀ {outer ret inner a}, u.adapters.lookup (outer, ret, inner) = some a →
    ∃ l, u.table.get? inner = some l ∧ Adapter.make ⟨outer, some ret⟩ l = .ok a

variable {u u' v : Ufunc} {args : List DType} {ret : Option DType} {l : Loop} {outer : Signature}

namespace Coherent

theorem has_of_get? (hu : Coherent u) (h : u.table.get? args = some l) : Has u l := by
  unfold Has
  rw [(hu.loop h).1, h]

theorem takes (hu : Coherent u) (h : u.find? args = some l) : l.Takes args := by
  unfold Ufunc.find? at h
  split at h
  next m hget =>
    cases h
    rw [← (hu.loop hget).1]
    exact l.takes_self
  next =>
    split at h
    · exact (Loop.findMatching?_eq_some h).2
    · cases h

theorem find? (hu : Coherent u) (h : u.find? args = some l) :
    Has u l ∧ l.args.length = args.length := by
  refine ⟨?_, (hu.takes h).length_eq.symm⟩
  unfold Ufunc.find? at h
  split at h
  next m hget =>
    cases h
    exact hu.has_of_get? hget
  next =>
    split at h
    · obtain ⟨args', hget⟩ := LoopTable.exists_get?_of_mem_toList (Loop.findMatching?_eq_some h).1
      exact hu.has_of_get? hget
    · cases h

theorem withLoop (hu : Coherent u) (hl : u.Compiles args ret l) : Coherent (u.withLoop l) := by
  constructor
  · intro k m hget
    rw [hl.get?_withLoop] at hget
    split at hget
    next hk =>
      cases hget
      exact ⟨hl.args_eq.trans hk.symm, hk ▸ hl.length, Loop.nout_of_compile hl.compiled⟩
    next => exact hu.loop hget
  · intro outer ret inner a hlookup
    obtain ⟨m, hget, hmake⟩ := hu.adapter hlookup
    refine ⟨m, ?_, hmake⟩
    rw [hl.get?_withLoop, if_neg, hget]
    rintro rfl
    rw [hl.fresh] at hget
    cases hget

theorem serves (hu : Coherent u) (h : Serves u args l u') :
    Coherent u' ∧ Has u' l ∧ l.args.length = args.length ∧ u'.find? args = some l := by
  cases h with
  | found h =>
    obtain ⟨hhas, hlen⟩ := hu.find? h
    exact ⟨hu, hhas, hlen, h⟩
  | compiled h hl =>
    have hget : (u.withLoop l).table.get? args = some l := by rw [hl.get?_withLoop, if_pos rfl]
    have hu' := hu.withLoop hl
    exact ⟨hu', hu'.has_of_get? hget, by rw [hl.args_eq], find?_of_get? hget⟩

theorem nout_of_serves (hu : Coherent u) (h : Serves u args l u') : u.nout = 1 := by
  obtain ⟨hu', hhas, -⟩ := hu.serves h
  have hnout := (hu'.loop hhas).2.2
  cases h with
  | found => exact hnout
  | compiled => exact hnout

theorem answer_adapterFor (hu : Coherent u) (hl : Has u l) :
    answer (adapterFor outer l) u = Adapter.make outer l := by
  unfold adapterFor
  simp only [answer_bind, answer_get, after_get, ok_bind]
  cases hlookup : u.adapters.lookup (outer.args, outer.ret.getD l.ret, l.args) with
  | some a =>
    -- The key names the types of the loop only, but no other loop has these types.
    obtain ⟨m, hm, hmake⟩ := hu.adapter hlookup
    obtain rfl : l = m := Option.some.inj (hl.symm.trans hm)
    exact hmake.symm
  | none => cases hmake : Adapter.make outer l <;> simp

theorem adapterFor (hu : Coherent u) (hl : Has u l) (outer : Signature) :
    Coherent (after (Ufunc.adapterFor outer l) u) := by
  rcases after_adapterFor u outer l with hafter | ⟨a, hmake, hafter⟩
  · rwa [hafter]
  · rw [hafter]
    refine ⟨hu.loop, fun {outer' ret inner b} hlookup => ?_⟩
    rw [List.lookup_cons] at hlookup
    split at hlookup
    next heq =>
      cases hlookup
      obtain ⟨rfl, rfl, rfl⟩ := Prod.mk.inj (eq_of_beq heq)
      exact ⟨l, hl, hmake⟩
    next => exact hu.adapter hlookup

end Coherent

/-! ## Invariants -/

/-- A property that is kept when a loop is compiled for a call and when an adapter is made. -/
structure Stable (P : Ufunc → Prop) : Prop where
  coherent : ∀ {u}, P u → Coherent u
  withLoop : ∀ {u args l}, P u → u.Compiles args none l → P (u.withLoop l)
  withAdapters : ∀ {u adapters}, P u → Coherent { u with adapters } → P { u with adapters }

theorem stable_coherent : Stable Coherent := ⟨id, Coherent.withLoop, fun _ h => h⟩

variable {P : Ufunc → Prop}

theorem Stable.keeps_resolve (hP : Stable P) (types : List OperandType) :
    Keeps P (resolve types) := by
  refine Keeps.of_after fun u hu => ?_
  rcases after_resolve u types with h | ⟨args, l, hl, h⟩
  · rwa [h]
  · rw [h]
    exact hP.withLoop hu hl

theorem Stable.after_adapterFor (hP : Stable P) (hu : P u) (hl : Has u l) :
    P (after (adapterFor outer l) u) := by
  have hafter := (hP.coherent hu).adapterFor hl outer
  rw [sameButAdapters_after_adapterFor u outer l] at hafter ⊢
  exact hP.withAdapters hu hafter

theorem keeps_compileFor (h : ∀ {u l}, P u → u.Compiles args ret l → P (u.withLoop l)) :
    Keeps P (compileFor args ret) := by
  refine Keeps.of_after fun u hu => ?_
  by_cases hl : ∃ l, u.Compiles args ret l
  · obtain ⟨l, hl⟩ := hl
    rw [hl.compileFor.2]
    exact h hu hl
  · rwa [(compileFor_of_not hl).1]

theorem keeps_freeze (h : ∀ {u}, P u → u.table.isEmpty = false → P { u with frozen := true }) :
    Keeps P freeze := by
  unfold freeze
  refine Keeps.of_after fun u hu => ?_
  simp only [after_bind, answer_get, after_get]
  split
  · exact hu
  next hempty => exact h hu (by simpa using hempty)

/-! ## Two functions side by side -/

/-- Related functions type calls alike, and making adapters keeps them related. -/
structure Congruent (R : Ufunc → Ufunc → Prop) : Prop where
  coherent : ∀ {u v}, R u v → Coherent u ∧ Coherent v
  definition : ∀ {u v}, R u v → u.definition = v.definition
  identity : ∀ {u v}, R u v → u.identity = v.identity
  resolve : ∀ types, Agree R (resolve types) (resolve types)
  adapterFor : ∀ {u v l}, R u v → Has u l → Has v l → ∀ outer,
    R (after (adapterFor outer l) u) (after (adapterFor outer l) v)

theorem Stable.congruent (hP : Stable P) : Congruent fun u v => u = v ∧ P u where
  coherent := by
    rintro u _ ⟨rfl, hu⟩
    exact ⟨hP.coherent hu, hP.coherent hu⟩
  definition := by
    rintro u _ ⟨rfl, -⟩
    rfl
  identity := by
    rintro u _ ⟨rfl, -⟩
    rfl
  resolve types := keeps_iff_agree.1 (hP.keeps_resolve types)
  adapterFor := by
    rintro u _ l ⟨rfl, hu⟩ hl - outer
    exact ⟨rfl, hP.after_adapterFor hu hl⟩

theorem serves_of_resolve {types : List OperandType} {p : CallSignature × Loop}
    (h : answer (resolve types) u = .ok p) :
    ∃ shape, CallShape.of u.name u.nin u.nout types = .ok shape ∧
      Serves u (inputTypes shape) p.2 (after (resolve types) u) ∧
      u.outputTypes shape p.2.ret = .ok p.1.outputs := by
  by_cases hserves : ∃ shape, CallShape.of u.name u.nin u.nout types = .ok shape ∧
      ∃ l u', Serves u (inputTypes shape) l u'
  · obtain ⟨shape, hshape, l, u', hserves⟩ := hserves
    obtain ⟨hafter, hanswer⟩ := hserves.resolve hshape
    rw [hanswer] at h
    cases houtputs : u.outputTypes shape l.ret with
    | error e => simp [houtputs] at h
    | ok outputs =>
      rw [houtputs, map_ok] at h
      cases h
      exact ⟨shape, hshape, hafter ▸ hserves, houtputs⟩
  · obtain ⟨-, e, he⟩ := resolve_of_not fun shape hshape h => hserves ⟨shape, hshape, h⟩
    rw [h] at he
    cases he

theorem has_of_resolve (hu : Coherent u) {types : List OperandType} {p : CallSignature × Loop}
    (h : answer (resolve types) u = .ok p) : Has (after (resolve types) u) p.2 := by
  obtain ⟨shape, -, hserves, -⟩ := serves_of_resolve h
  exact (hu.serves hserves).2.1

namespace Congruent

variable {R : Ufunc → Ufunc → Prop}

theorem resolve_bind {β : Type} (hR : Congruent R) (types : List OperandType)
    {f g : CallSignature × Loop → Action β}
    (hfg : ∀ u v p, R u v → Has u p.2 → Has v p.2 →
      answer (f p) u = answer (g p) v ∧ R (after (f p) u) (after (g p) v)) :
    Agree R (Ufunc.resolve types >>= f) (Ufunc.resolve types >>= g) := by
  refine (hR.resolve types).bind_of fun u v p huv hu hv => ?_
  obtain ⟨hcu, hcv⟩ := hR.coherent huv
  exact hfg _ _ p (hR.resolve types u v huv).2 (has_of_resolve hcu hu) (has_of_resolve hcv hv)

theorem answer_adapterFor (hR : Congruent R) (huv : R u v) (hu : Has u l) (hv : Has v l) :
    answer (Ufunc.adapterFor outer l) u = answer (Ufunc.adapterFor outer l) v := by
  obtain ⟨hcu, hcv⟩ := hR.coherent huv
  rw [hcu.answer_adapterFor hu, hcv.answer_adapterFor hv]

theorem typeCall (hR : Congruent R) (types : List OperandType) :
    Agree R (typeCall types) (typeCall types) := by
  unfold Ufunc.typeCall
  exact (hR.resolve types).bind fun p => .pure _

theorem call (hR : Congruent R) (args : List Operand) (keywords : List (String × Operand)) :
    Agree R (call args keywords) (call args keywords) := by
  unfold Ufunc.call
  refine (Agree.liftM _).bind fun args => hR.resolve_bind _ ?_
  rintro u v ⟨signature, l⟩ huv hu hv
  have hd := hR.definition huv
  have hname : v.name = u.name := congrArg Definition.name hd.symm
  have hnin : v.nin = u.nin := congrArg Definition.nin hd.symm
  simp only [answer_bind, after_bind, answer_get, after_get, ok_bind, hname, hnin]
  split
  next ret hret =>
    simp only [answer_bind, after_bind, hR.answer_adapterFor huv hu hv]
    have hafter := hR.adapterFor huv hu hv
    cases answer (Ufunc.adapterFor _ l) v with
    | error e => exact ⟨rfl, hafter _⟩
    | ok a => simpa using hafter _
  · exact ⟨rfl, huv⟩

theorem foldAdapter (hR : Congruent R) (acc elem : DType) :
    Agree R (foldAdapter acc elem) (foldAdapter acc elem) := by
  unfold Ufunc.foldAdapter
  refine hR.resolve_bind _ ?_
  rintro u v ⟨signature, l⟩ huv hu hv
  exact ⟨hR.answer_adapterFor huv hu hv, hR.adapterFor huv hu hv _⟩

end Congruent

/-! ## Folds -/

theorem shape_of_foldArgs (hin : u.nin = 2) (acc elem : DType) :
    CallShape.of u.name u.nin u.nout [.scalar acc, .scalar elem] =
      .ok ⟨[acc, elem], [], 0, .rowMajor⟩ := by
  rw [hin]
  rfl

theorem Serves.foldAdapter (hu : Coherent u) (hin : u.nin = 2) {acc elem : DType}
    (h : Serves u [acc, elem] l u') :
    answer (foldAdapter acc elem) u = .ok ⟨[acc, elem], acc, l⟩ ∧
      after (foldAdapter acc elem) u = after (adapterFor ⟨[acc, elem], some acc⟩ l) u' := by
  obtain ⟨hu', hhas, hargs, -⟩ := hu.serves h
  have hshape := shape_of_foldArgs hin acc elem
  obtain ⟨hafter, hanswer⟩ := h.resolve hshape
  have hnout := hu.nout_of_serves h
  have houtputs : u.outputTypes ⟨[acc, elem], [], 0, .rowMajor⟩ l.ret = .ok [.scalar l.ret] := by
    simp [outputTypes, hnout]
  have hmake : Adapter.make ⟨[acc, elem], some acc⟩ l = .ok ⟨[acc, elem], acc, l⟩ := by
    simp [Adapter.make, hargs]
  unfold Ufunc.foldAdapter
  simp only [answer_bind, after_bind, hanswer, houtputs, hafter, map_ok, ok_bind]
  exact ⟨(hu'.answer_adapterFor hhas).trans hmake, trivial⟩

theorem foldAdapter_of_not (hin : u.nin = 2) {acc elem : DType}
    (h : ¬∃ l u', Serves u [acc, elem] l u') :
    after (foldAdapter acc elem) u = u ∧ ∃ e, answer (foldAdapter acc elem) u = .error e := by
  have hshape := shape_of_foldArgs hin acc elem
  have hnot : ∀ shape, CallShape.of u.name u.nin u.nout [.scalar acc, .scalar elem] = .ok shape →
      ¬∃ l u', Serves u (inputTypes shape) l u' := by
    intro shape hshape'
    rw [hshape] at hshape'
    cases hshape'
    exact h
  obtain ⟨hafter, e, he⟩ := resolve_of_not hnot
  unfold foldAdapter
  simp only [answer_bind, after_bind, he, hafter, error_bind]
  exact ⟨trivial, e, rfl⟩

theorem foldAdapter_cases (hu : Coherent u) (hin : u.nin = 2) (acc elem : DType) :
    (∃ l u', Serves u [acc, elem] l u' ∧
      answer (foldAdapter acc elem) u = .ok ⟨[acc, elem], acc, l⟩ ∧
      after (foldAdapter acc elem) u = after (adapterFor ⟨[acc, elem], some acc⟩ l) u') ∨
    ∃ e, answer (foldAdapter acc elem) u = .error e ∧ after (foldAdapter acc elem) u = u := by
  by_cases h : ∃ l u', Serves u [acc, elem] l u'
  · obtain ⟨l, u', hserves⟩ := h
    exact .inl ⟨l, u', hserves, hserves.foldAdapter hu hin⟩
  · obtain ⟨hafter, e, he⟩ := foldAdapter_of_not hin h
    exact .inr ⟨e, he, hafter⟩

theorem foldAdapter_again (hu : Coherent u) {acc elem : DType} {a : Adapter}
    (h : answer (foldAdapter acc elem) u = .ok a) :
    answer (foldAdapter acc elem) (after (foldAdapter acc elem) u) = .ok a ∧
      after (foldAdapter acc elem) (after (foldAdapter acc elem) u) =
        after (foldAdapter acc elem) u := by
  unfold foldAdapter at h ⊢
  rw [answer_bind] at h
  obtain ⟨⟨signature, l⟩, hp, ha⟩ := bind_eq_ok.1 h
  have hl := has_of_resolve hu hp
  have hv := sameButAdapters_after_adapterFor (after (resolve [.scalar acc, .scalar elem]) u)
    ⟨[acc, elem], some acc⟩ l
  have hcoherent := stable_coherent.keeps_resolve [.scalar acc, .scalar elem] |>.after hu
  have hcoherent' := hcoherent.adapterFor hl ⟨[acc, elem], some acc⟩
  obtain ⟨hanswer, hafter⟩ := resolve_again hp hv
  rw [hcoherent.answer_adapterFor hl] at ha
  simp only [answer_bind, after_bind, hp, hanswer, hafter, ok_bind]
  refine ⟨?_, after_adapterFor_again _ _ _⟩
  rw [hcoherent'.answer_adapterFor, ha]
  unfold Has
  rw [hv]
  exact hl

/-- What the fold of a function of two inputs has kept is what it would make again. -/
structure Remembers (s : Ufunc × LastStep) : Prop where
  nin : s.1.nin = 2
  last : ∀ acc elem a, s.2 = some ((acc, elem), a) →
    answer (foldAdapter acc elem) s.1 = .ok a ∧ after (foldAdapter acc elem) s.1 = s.1

namespace Remembers

variable {s : Ufunc × LastStep}

theorem start (hin : u.nin = 2) : Remembers (u, none) where
  nin := hin
  last := by
    intro acc elem a h
    cases h

theorem foldStep_eq (hs : Remembers s) (total x : Scalar) :
    answer (foldStep total x) s =
        answer (foldAdapter total.dtype x.dtype) s.1 >>= (fun a => a.call [total, x]) ∧
      after (foldStep total x) s = (after (foldAdapter total.dtype x.dtype) s.1,
        match answer (foldAdapter total.dtype x.dtype) s.1 with
        | .ok a => some ((total.dtype, x.dtype), a)
        | .error _ => s.2) := by
  have hanswer : ∀ act : Action Adapter, answer (onUfunc act) s = answer act s.1 := fun _ => rfl
  have hafter : ∀ act : Action Adapter, after (onUfunc act) s = (after act s.1, s.2) := fun _ => rfl
  obtain ⟨u, last⟩ := s
  unfold foldStep
  cases last with
  | none => cases h : answer (foldAdapter total.dtype x.dtype) u <;> simp [hanswer, hafter, h]
  | some p =>
    obtain ⟨⟨acc, elem⟩, a⟩ := p
    by_cases hkey : (acc, elem) = (total.dtype, x.dtype)
    · obtain ⟨hmake, hsame⟩ := hs.last acc elem a rfl
      cases hkey
      simp [hmake, hsame]
    · cases h : answer (foldAdapter total.dtype x.dtype) u <;>
        simp [hanswer, hafter, h, hkey]

theorem foldStep (hs : Remembers s) (hu : Coherent s.1) (total x : Scalar) :
    Remembers (after (foldStep total x) s) := by
  rw [(hs.foldStep_eq total x).2]
  rcases foldAdapter_cases hu hs.nin total.dtype x.dtype with
    ⟨l, u', hserves, hanswer, hafter⟩ | ⟨e, hanswer, hafter⟩
  · have hagain := foldAdapter_again hu hanswer
    rw [hanswer]
    refine ⟨?_, fun acc elem a ha => ?_⟩
    · rw [hafter, sameButAdapters_after_adapterFor u']
      cases hserves <;> exact hs.nin
    · cases ha
      exact hagain
  · rw [hanswer, hafter]
    exact hs

end Remembers

namespace Congruent

variable {R : Ufunc → Ufunc → Prop}

theorem foldStep (hR : Congruent R) (total x : Scalar) :
    Agree (fun s t => R s.1 t.1 ∧ Remembers s ∧ Remembers t) (foldStep total x)
      (foldStep total x) := by
  rintro s t ⟨hst, hs, ht⟩
  obtain ⟨hu, hv⟩ := hR.coherent hst
  obtain ⟨hanswer, hafter⟩ := hR.foldAdapter total.dtype x.dtype s.1 t.1 hst
  refine ⟨?_, ?_, hs.foldStep hu total x, ht.foldStep hv total x⟩
  · rw [(hs.foldStep_eq total x).1, (ht.foldStep_eq total x).1, hanswer]
  · rw [(hs.foldStep_eq total x).2, (ht.foldStep_eq total x).2]
    exact hafter

end Congruent

/-- The folds of a function on the elements of an array. -/
def reducer (u : Ufunc) : Reducer (Ufunc × LastStep) := ⟨u.name, u.identity, foldStep⟩

theorem reduce_eq (a : NDArray) (options : ReduceOptions) (hout : u.nout = 1) (hin : u.nin = 2) :
    answer (reduce a options) u = answer (u.reducer.run a options) (u, none) ∧
      after (reduce a options) u = (after (u.reducer.run a options) (u, none)).1 := by
  unfold reduce
  simp only [answer_bind, after_bind, answer_get, after_get, ok_bind]
  simp only [ne_eq, hout, hin, not_true_eq_false, if_false]
  exact ⟨rfl, rfl⟩

theorem Congruent.reducer {R : Ufunc → Ufunc → Prop} (hR : Congruent R) (huv : R u v) :
    Reducer.Matches (fun s t => R s.1 t.1 ∧ Remembers s ∧ Remembers t) u.reducer v.reducer where
  name := congrArg Definition.name (hR.definition huv)
  identity := hR.identity huv
  fold total x := by
    unfold Ufunc.reducer
    exact hR.foldStep total x

theorem Congruent.reduce {R : Ufunc → Ufunc → Prop} (hR : Congruent R) (a : NDArray)
    (options : ReduceOptions) : Agree R (reduce a options) (reduce a options) := by
  intro u v huv
  have hd := hR.definition huv
  have hname : v.name = u.name := congrArg Definition.name hd.symm
  have hnin : v.nin = u.nin := congrArg Definition.nin hd.symm
  have hnout : v.nout = u.nout := congrArg Definition.nout hd.symm
  by_cases hout : u.nout = 1
  · by_cases hin : u.nin = 2
    · obtain ⟨hanswer, hafter, -⟩ := (hR.reducer huv).run a options (u, none) (v, none)
        ⟨huv, .start hin, .start (hnin.trans hin)⟩
      obtain ⟨hu, hu'⟩ := reduce_eq a options hout hin
      obtain ⟨hv, hv'⟩ := reduce_eq a options (hnout.trans hout) (hnin.trans hin)
      rw [hu, hv, hu', hv']
      exact ⟨hanswer, hafter⟩
    · unfold Ufunc.reduce
      simpa [hname, hnin, hnout, hout, hin] using huv
  · unfold Ufunc.reduce
    simpa [hname, hnout, hout] using huv

/-! ## Every operation -/

namespace Stable

theorem keeps_typeCall (hP : Stable P) (types : List OperandType) : Keeps P (typeCall types) :=
  keeps_iff_agree.2 (hP.congruent.typeCall types)

theorem keeps_call (hP : Stable P) (args : List Operand) (keywords : List (String × Operand)) :
    Keeps P (call args keywords) :=
  keeps_iff_agree.2 (hP.congruent.call args keywords)

theorem keeps_reduce (hP : Stable P) (a : NDArray) (options : ReduceOptions) :
    Keeps P (reduce a options) :=
  keeps_iff_agree.2 (hP.congruent.reduce a options)

theorem keeps_compileForOperands (hP : Stable P) (args : List Operand)
    (keywords : List (String × Operand)) : Keeps P (compileForOperands args keywords) := by
  unfold compileForOperands
  refine Keeps.get.bind fun u => Keeps.liftM.bind fun args => ?_
  dsimp only
  split
  · exact .throw_bind
  · exact keeps_compileFor hP.withLoop

end Stable

theorem keeps_add {text : String} (h : ∀ s, Signature.read text = .ok s →
    ∀ {u l}, P u → u.Compiles s.args s.ret l → P (u.withLoop l)) : Keeps P (add text) := by
  unfold add
  cases hread : Signature.read text with
  | error e => exact .of_after fun u hu => by simpa using hu
  | ok s =>
    have hs : Keeps P (addSignature s) := keeps_compileFor (h s hread)
    exact .of_after fun u hu => by simpa using hs.after hu

/-! ## Requests -/

theorem keeps_map {α β : Type} {act : Action α} (h : Keeps P act) (f : α → β) :
    Keeps P (f <$> act) :=
  .of_after fun u hu => by simpa using h.after hu

/-- A request keeps what the loops that it may compile keep, and what freezing keeps. -/
theorem Stable.keeps_perform (hP : Stable P) (r : Request)
    (hcompile : ∀ {u args l}, P u → u.Compiles args r.ret? l → P (u.withLoop l))
    (hfreeze : r = .freeze → ∀ {u}, P u → u.table.isEmpty = false → P { u with frozen := true }) :
    Keeps P (perform r) := by
  cases r with
  | add text =>
    -- The return type is known only once the text has been read.
    refine keeps_map (keeps_add fun s hs u l hu hl => ?_) _
    have hret : Request.ret? (.add text) = s.ret := by
      unfold Request.ret? Request.signature?
      simp [hs, Except.toOption]
    rw [← hret] at hl
    exact hcompile hu hl
  | addSignature s => exact keeps_map (keeps_compileFor hcompile) _
  | compileFor args ret => exact keeps_map (keeps_compileFor hcompile) _
  | compileForOperands args keywords =>
    exact keeps_map (hP.keeps_compileForOperands args keywords) _
  | find args => exact Keeps.get.bind fun u => .pure
  | freeze => exact (keeps_freeze (hfreeze rfl)).bind fun _ => .pure
  | typeCall types => exact keeps_map (hP.keeps_typeCall types) _
  | call args keywords => exact keeps_map (hP.keeps_call args keywords) _
  | reduce a options => exact keeps_map (hP.keeps_reduce a options) _
  | invoke args values =>
    refine Keeps.get.bind fun u => ?_
    split
    · exact Keeps.liftM.bind fun v => .pure
    · exact .pure
  | snapshot => exact Keeps.get.bind fun u => .pure

/-! ## Sequences of requests -/

theorem answers_cons (u : Ufunc) (r : Request) (rs : List Request) :
    u.answers (r :: rs) = answer (perform r) u :: (after (perform r) u).answers rs := rfl

theorem afterAll_cons (u : Ufunc) (r : Request) (rs : List Request) :
    u.afterAll (r :: rs) = (after (perform r) u).afterAll rs := rfl

theorem keeps_afterAll {requests : List Request} (h : ∀ r ∈ requests, Keeps P (perform r))
    (hu : P u) : P (u.afterAll requests) := by
  induction requests generalizing u with
  | nil => exact hu
  | cons r rs ih =>
    rw [afterAll_cons]
    exact ih (fun r hr => h r (.tail _ hr)) ((h r (.head _)).after hu)

theorem agree_answers {R : Ufunc → Ufunc → Prop} (h : ∀ r, Agree R (perform r) (perform r))
    (huv : R u v) (requests : List Request) :
    u.answers requests = v.answers requests ∧ R (u.afterAll requests) (v.afterAll requests) := by
  induction requests generalizing u v with
  | nil => exact ⟨rfl, huv⟩
  | cons r rs ih =>
    obtain ⟨hanswer, hafter⟩ := h r u v huv
    obtain ⟨hanswers, hafters⟩ := ih hafter
    rw [answers_cons, answers_cons, hanswer, hanswers]
    exact ⟨rfl, hafters⟩

end Pointwise.Ufunc

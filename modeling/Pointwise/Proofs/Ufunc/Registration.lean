import Pointwise.Proofs.Loop.Table
import Pointwise.Proofs.Ufunc.Calls

/-!
# Registered loops

Loops are registered by explicit requests, by the typing of calls and by the steps of reductions.
However they come in, each has its own argument types, none is ever changed or moved, and none is
added to a frozen function.
-/

namespace Pointwise.Ufunc

open Stateful

variable {u v : Ufunc} {args : List DType} {ret : Option DType} {l : Loop}

/-! ## The table -/

theorem Compiles.lists (hl : u.Compiles args ret l) {loops : List Loop}
    (h : u.table.Lists loops) : (u.withLoop l).table.Lists (loops ++ [l]) := by
  apply h.insert
  rw [hl.args_eq]
  exact hl.fresh

/-- The table lists its loops, of which a frozen function has one. -/
structure Listed (u : Ufunc) : Prop where
  coherent : Coherent u
  lists : u.table.Lists u.table.toList
  frozen : u.frozen = true → u.table.isEmpty = false

namespace Listed

theorem of_lists {loops : List Loop} (hu : Coherent u) (h : u.table.Lists loops)
    (hfrozen : u.frozen = true → u.table.isEmpty = false) : Listed u :=
  ⟨hu, by rwa [h.toList_eq], hfrozen⟩

theorem withLoop (hu : Listed u) (hl : u.Compiles args ret l) : Listed (u.withLoop l) := by
  apply of_lists (hu.coherent.withLoop hl) (hl.lists hu.lists)
  intro hfrozen
  have hnot : u.frozen = true := hfrozen
  rw [hl.frozen] at hnot
  cases hnot

theorem stable : Stable Listed where
  coherent := Listed.coherent
  withLoop := Listed.withLoop
  withAdapters hu hcoherent := ⟨hcoherent, hu.lists, hu.frozen⟩

theorem wellFormed (hu : Listed u) : u.table.WellFormed u.nin := by
  apply hu.lists.wellFormed
  intro l hl
  obtain ⟨args, hget⟩ := LoopTable.exists_get?_of_mem_toList hl
  obtain ⟨hargs, hlen, -⟩ := hu.coherent.loop hget
  rw [hargs, hlen]

end Listed

theorem Reachable.listed (h : Reachable u) : Listed u := by
  apply h.of_stable Listed.stable
  · intro d hosts identity options
    exact .of_lists (coherent_new d hosts identity options) LoopTable.lists_empty nofun
  · intro u identity hu
    exact ⟨⟨hu.coherent.loop, hu.coherent.adapter⟩, hu.lists, hu.frozen⟩
  · intro u options hu
    exact ⟨⟨hu.coherent.loop, hu.coherent.adapter⟩, hu.lists, hu.frozen⟩
  · intro u args ret l hu hl
    exact hu.withLoop hl
  · intro u hu hempty
    exact ⟨⟨hu.coherent.loop, hu.coherent.adapter⟩, hu.lists, fun _ => hempty⟩

/-! ## What is kept -/

/-- All loops are kept in their order, and a frozen function stays as it is. -/
structure Extends (u v : Ufunc) : Prop where
  definition : v.definition = u.definition
  order : u.table.order <+: v.table.order
  loop : ∀ args l, u.table.get? args = some l → v.table.get? args = some l
  frozen : u.frozen = true → v.frozen = true ∧ v.table = u.table

namespace Extends

theorem refl (u : Ufunc) : Extends u u :=
  ⟨rfl, List.prefix_refl _, fun _ _ h => h, fun h => ⟨h, rfl⟩⟩

theorem withLoop (h : Extends u v) (hl : v.Compiles args ret l) : Extends u (v.withLoop l) where
  definition := h.definition
  order := by
    have horder : (v.withLoop l).table.order = v.table.order ++ [l.args] := by
      have hfresh := hl.fresh
      rw [← hl.args_eq] at hfresh
      simp [Ufunc.withLoop, LoopTable.insert, hfresh]
    rw [horder]
    exact h.order.trans (List.prefix_append _ _)
  loop k m hm := by
    have hget := h.loop k m hm
    rw [hl.get?_withLoop, if_neg, hget]
    rintro rfl
    rw [hl.fresh] at hget
    cases hget
  frozen hu := by
    have hv := (h.frozen hu).1
    rw [hl.frozen] at hv
    cases hv

end Extends

/-- A function that goes back to another one, with its loops in the same places. -/
structure Descends (u v : Ufunc) : Prop where
  listed : Listed v
  kept : Extends u v

theorem Descends.stable (u : Ufunc) : Stable (Descends u) where
  coherent h := h.listed.coherent
  withLoop h hl := ⟨h.listed.withLoop hl, h.kept.withLoop hl⟩
  withAdapters h hcoherent :=
    ⟨⟨hcoherent, h.listed.lists, h.listed.frozen⟩,
      ⟨h.kept.definition, h.kept.order, h.kept.loop, h.kept.frozen⟩⟩

theorem keeps_descends (u : Ufunc) (r : Request) : Keeps (Descends u) (perform r) := by
  apply (Descends.stable u).keeps_perform r
  · intro v args l h hl
    exact ⟨h.listed.withLoop hl, h.kept.withLoop hl⟩
  · rintro - v h hempty
    have hcoherent := h.listed.coherent
    refine ⟨⟨⟨hcoherent.loop, hcoherent.adapter⟩, h.listed.lists, fun _ => hempty⟩, ?_⟩
    exact ⟨h.kept.definition, h.kept.order, h.kept.loop, fun hu => ⟨rfl, (h.kept.frozen hu).2⟩⟩

/-! ## What is added -/

/-- The same function with more loops, which were compiled with certain return types. -/
structure Grown (rets : Option DType → Prop) (u v : Ufunc) : Prop where
  coherent : Coherent v
  definition : v.definition = u.definition
  hosts : v.hosts = u.hosts
  identity : v.identity = u.identity
  options : v.options = u.options
  loop : ∀ args l, v.table.get? args = some l → u.table.get? args = some l ∨
    ∃ ret, rets ret ∧ Loop.compile u.definition u.hosts u.options args ret = .ok l

namespace Grown

variable {rets : Option DType → Prop}

theorem refl (hu : Coherent u) : Grown rets u u :=
  ⟨hu, rfl, rfl, rfl, rfl, fun _ _ h => .inl h⟩

theorem withLoop (h : Grown rets u v) (hret : rets ret) (hl : v.Compiles args ret l) :
    Grown rets u (v.withLoop l) := by
  refine ⟨h.coherent.withLoop hl, h.definition, h.hosts, h.identity, h.options, fun k m hm => ?_⟩
  rw [hl.get?_withLoop] at hm
  split at hm
  next hk =>
    cases hm
    have hcompiled := hl.compiled
    rw [h.definition, h.hosts, h.options, ← hk] at hcompiled
    exact .inr ⟨ret, hret, hcompiled⟩
  next => exact h.loop k m hm

theorem withAdapters {adapters : List (AdapterKey × Adapter)} (h : Grown rets u v)
    (hcoherent : Coherent { v with adapters }) : Grown rets u { v with adapters } :=
  ⟨hcoherent, h.definition, h.hosts, h.identity, h.options, h.loop⟩

theorem stable (hnone : rets none) : Stable (Grown rets u) where
  coherent := Grown.coherent
  withLoop h hl := h.withLoop hnone hl
  withAdapters := Grown.withAdapters

end Grown

theorem perform_of_signature? {r : Request} {s : Signature} (h : r.signature? = some s) :
    answer (perform r) u = (answer (compileFor s.args s.ret) u).map .loop ∧
      after (perform r) u = after (compileFor s.args s.ret) u := by
  cases r with
  | add text =>
    have hread : Signature.read text = .ok s := by
      simp only [Request.signature?] at h
      cases hread : Signature.read text <;> simp_all [Except.toOption]
    simp [perform, add, addSignature, hread]
  | addSignature t =>
    cases h
    simp [perform, addSignature]
  | compileFor args ret =>
    cases h
    simp [perform]
  | _ => cases h

/-- A request grows a function by loops with the return type that it names. -/
theorem keeps_grown {rets : Option DType → Prop} (u : Ufunc) {r : Request} (hr : rets r.ret?) :
    Keeps (Grown rets u) (perform r) := by
  unfold Request.ret? at hr
  cases hs : r.signature? with
  | some s =>
    rw [hs] at hr
    refine .of_after fun v hv => ?_
    rw [(perform_of_signature? hs).2]
    exact (keeps_compileFor fun hv hl => hv.withLoop hr hl).after hv
  | none =>
    -- What is compiled without a signature has an inferred return type.
    have hret : r.ret? = none := by simp [Request.ret?, hs]
    rw [hs] at hr
    refine (Grown.stable hr).keeps_perform r ?_ ?_
    · rw [hret]
      exact fun hv hl => hv.withLoop hr hl
    · rintro - v h -
      exact ⟨⟨h.coherent.loop, h.coherent.adapter⟩, h.definition, h.hosts, h.identity, h.options,
        h.loop⟩

/-! ## Requests that fail, and loops that are there -/

theorem after_resolve_of_error (hu : Coherent u) {types : List OperandType} {e : Error}
    (h : answer (resolve types) u = .error e) : after (resolve types) u = u := by
  by_cases hserves : ∃ shape, CallShape.of u.name u.nin u.nout types = .ok shape ∧
      ∃ l u', Serves u (inputTypes shape) l u'
  · -- Once a loop serves the call, its one output cannot fail to be typed.
    obtain ⟨shape, hshape, l, u', hserves⟩ := hserves
    obtain ⟨hu', hhas, -⟩ := hu.serves hserves
    have hnout : u.nout = 1 := by
      have hnout := (hu'.loop hhas).2.2
      cases hserves <;> exact hnout
    rw [(hserves.resolve hshape).2] at h
    unfold outputTypes at h
    rw [if_pos hnout] at h
    split at h <;> cases h
  · exact (resolve_of_not fun shape hshape h => hserves ⟨shape, hshape, h⟩).1

theorem after_compileFor_of_error {e : Error} (h : answer (compileFor args ret) u = .error e) :
    after (compileFor args ret) u = u := by
  by_cases hl : ∃ l, u.Compiles args ret l
  · obtain ⟨l, hl⟩ := hl
    rw [hl.compileFor.1] at h
    cases h
  · exact (compileFor_of_not hl).1

theorem after_perform_of_error (hu : Coherent u) {r : Request} (hr : r.wantsLoop = true) {e : Error}
    (h : answer (perform r) u = .error e) : after (perform r) u = u := by
  have hsignature : ∀ s, r.signature? = some s → after (perform r) u = u := by
    intro s hs
    obtain ⟨hanswer, hafter⟩ := perform_of_signature? (u := u) hs
    rw [hanswer] at h
    rw [hafter]
    cases hc : answer (compileFor s.args s.ret) u with
    | ok l =>
      rw [hc] at h
      cases h
    | error e => exact after_compileFor_of_error hc
  cases r with
  | add text =>
    cases hread : Signature.read text with
    | ok s => exact hsignature s (by simp [Request.signature?, hread, Except.toOption])
    | error e => simp [perform, add, hread]
  | addSignature s => exact hsignature s rfl
  | compileFor args ret => exact hsignature ⟨args, ret⟩ rfl
  | compileForOperands args keywords =>
    simp only [perform, answer_map, after_map] at h ⊢
    rcases compileForOperands_cases u args keywords with
      ⟨ops, -, -, hanswer, hafter⟩ | ⟨-, hafter, -⟩
    · rw [hanswer] at h
      rw [hafter]
      cases hc : answer (compileFor (u.loopKey ops) none) u with
      | ok l =>
        rw [hc] at h
        cases h
      | error e => exact after_compileFor_of_error hc
    · exact hafter
  | find args => rfl
  | typeCall types =>
    simp only [perform, typeCall, answer_map, after_map, answer_bind, after_bind] at h ⊢
    cases hresolve : answer (resolve types) u with
    | ok p =>
      rw [hresolve] at h
      cases h
    | error e => exact after_resolve_of_error hu hresolve
  | _ => cases hr

theorem after_perform_of_looks {r : Request} (hr : r.looks = true) : after (perform r) u = u := by
  cases r with
  | find args => rfl
  | invoke args values =>
    simp only [perform, after_bind, answer_get, after_get]
    split <;> simp
  | snapshot => rfl
  | _ => cases hr

theorem Reachable.perform (hu : Reachable u) (r : Request) : Reachable (after (perform r) u) := by
  have hlooks : r.looks = true → Reachable (after (Ufunc.perform r) u) := by
    intro hr
    rwa [after_perform_of_looks hr]
  cases r with
  | add text => simpa [Ufunc.perform] using hu.add text
  | addSignature s => simpa [Ufunc.perform, addSignature] using hu.compileFor s.args s.ret
  | compileFor args ret => simpa [Ufunc.perform] using hu.compileFor args ret
  | compileForOperands args keywords =>
    simpa [Ufunc.perform] using hu.compileForOperands args keywords
  | freeze =>
    have hkeeps : Keeps Reachable Ufunc.freeze := .of_after fun _ hv => hv.freeze
    exact (hkeeps.bind fun _ => .pure).after hu
  | typeCall types => simpa [Ufunc.perform] using hu.typeCall types
  | call args keywords => simpa [Ufunc.perform] using hu.call args keywords
  | reduce a options => simpa [Ufunc.perform] using hu.reduce a options
  | find _ => exact hlooks rfl
  | invoke _ _ => exact hlooks rfl
  | snapshot => exact hlooks rfl

theorem compileFor_of_get? (hu : Coherent u) (hfrozen : u.frozen = false)
    (hl : u.table.get? args = some l) (ret : Option DType) :
    after (compileFor args ret) u = u ∧
      ((ret = none ∨ ret = some l.ret) → answer (compileFor args ret) u = .ok l) ∧
      ∀ t, ret = some t → t ≠ l.ret → answer (compileFor args ret) u =
        .error (.conflictingSignature u.name l.signature ⟨args, ret⟩) := by
  have hlen := (hu.loop hl).2.1
  refine ⟨?_, ?_, ?_⟩
  · refine (compileFor_of_not ?_).1
    rintro ⟨m, hm⟩
    rw [hm.fresh] at hl
    cases hl
  · intro hret
    have hlookup : u.lookupExact args ret = .ok (some l) := by
      unfold lookupExact
      rcases hret with rfl | rfl <;> simp [hl]
    unfold compileFor
    simp [hfrozen, hlen, hlookup]
  · rintro t rfl ht
    have hlookup : u.lookupExact args (some t) =
        .error (.conflictingSignature u.name l.signature ⟨args, some t⟩) := by
      unfold lookupExact
      simp [hl, ht]
    unfold compileFor
    simp [hfrozen, hlen, hlookup]

/--
Whatever has been asked of a function and is asked of it, its table lists each loop once, under its
own argument types, a frozen function has a loop, and no loop is changed or moved, nor is one added
to a frozen function. A loop that a request adds is what the definition compiles to. A request for a
loop that fails changes nothing; one for a loop that is there answers it, or fails if it names
another return type.
-/
theorem requests_keep_loops (hu : Reachable u) :
    (∀ requests, Reachable (u.afterAll requests) ∧
      (u.afterAll requests).table.WellFormed u.nin ∧
      ((u.afterAll requests).frozen = true → (u.afterAll requests).table.isEmpty = false) ∧
      Extends u (u.afterAll requests)) ∧
    (∀ r args l, (after (perform r) u).table.get? args = some l →
      u.table.get? args = some l ∨
        Loop.compile u.definition u.hosts u.options args r.ret? = .ok l) ∧
    (∀ r e, r.wantsLoop = true → answer (perform r) u = .error e → after (perform r) u = u) ∧
    (∀ r, r.looks = true → after (perform r) u = u) ∧
    ∀ r s l, u.frozen = false → r.signature? = some s → u.table.get? s.args = some l →
      after (perform r) u = u ∧
        ((s.ret = none ∨ s.ret = some l.ret) → answer (perform r) u = .ok (.loop l)) ∧
        ∀ t, s.ret = some t → t ≠ l.ret →
          answer (perform r) u = .error (.conflictingSignature u.name l.signature s) := by
  have hlisted := hu.listed
  refine ⟨?runs, ?added, ?failures, fun r hr => after_perform_of_looks hr, ?registered⟩
  case runs =>
    intro requests
    have hstart : Descends u u := ⟨hlisted, .refl u⟩
    have hdescends : Descends u (u.afterAll requests) :=
      keeps_afterAll (fun r _ => keeps_descends u r) hstart
    obtain ⟨hend, hextends⟩ := hdescends
    have hreachable : Reachable (u.afterAll requests) :=
      keeps_afterAll (fun r _ => .of_after fun _ hv => hv.perform r) hu
    have hwell := hend.wellFormed
    unfold nin at hwell
    rw [hextends.definition] at hwell
    exact ⟨hreachable, hwell, hend.frozen, hextends⟩
  case added =>
    intro r args l hl
    have hkeeps : Keeps (Grown (· = r.ret?) u) (perform r) := keeps_grown u rfl
    have hgrown := hkeeps.after (.refl hlisted.coherent)
    rcases hgrown.loop args l hl with h | ⟨ret, rfl, h⟩
    · exact .inl h
    · exact .inr h
  case failures =>
    intro r e hr
    exact after_perform_of_error hlisted.coherent hr
  case registered =>
    intro r s l hfrozen hs hl
    obtain ⟨hanswer, hafter⟩ := perform_of_signature? (u := u) hs
    obtain ⟨hsame, hregistered, hconflict⟩ :=
      compileFor_of_get? hlisted.coherent hfrozen hl s.ret
    refine ⟨hafter.trans hsame, fun hret => ?_, fun t ht hne => ?_⟩
    · rw [hanswer, hregistered hret, map_ok]
    · rw [hanswer, hconflict t ht hne, map_error]

/-! ## A function that is frozen between two requests -/

/-- A loop, another return type for it, and a type that comes too late. -/
def registrations : List Request :=
  [.add "ii->l", .compileFor [.int32, .int32] (some .float64), .freeze, .add "ff->f"]

theorem requests_keep_loops_difference :
    Reachable difference ∧
      (difference.afterAll registrations).table.WellFormed 2 ∧
      (difference.afterAll registrations).table.order = [[.int32, .int32]] ∧
      (difference.afterAll registrations).frozen = true ∧
      (difference.afterAll registrations).table.isEmpty = false ∧
      Extends difference (difference.afterAll registrations) := by
  have hu : Reachable difference := .new _ _ _ Definition.parse_difference
  obtain ⟨-, hwell, hempty, hextends⟩ := (requests_keep_loops hu).1 registrations
  have horder : (difference.afterAll registrations).table.order = [[.int32, .int32]] := by
    decide +kernel
  have hfrozen : (difference.afterAll registrations).frozen = true := by decide +kernel
  exact ⟨hu, hwell, horder, hfrozen, hempty hfrozen, hextends⟩

end Pointwise.Ufunc

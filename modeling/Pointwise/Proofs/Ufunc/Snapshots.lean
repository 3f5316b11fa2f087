import Pointwise.Proofs.Definition.Spacing
import Pointwise.Proofs.Ufunc.Registration

/-!
# Snapshots

A function that is made from a snapshot has the loops of the one that the snapshot was taken of, and
only its adapters have to be made again. So the two answer all requests alike.
-/

namespace Pointwise

theorem Loop.compile_again {d : Definition} {hosts : HostTable} {options : Options}
    {args : List DType} {ret : Option DType} {l : Loop}
    (h : compile d hosts options args ret = .ok l) :
    compile d hosts options args (some l.ret) = .ok l := by
  obtain ⟨body, t, hcheck, -, hret, -⟩ := compile_eq_ok h
  unfold compile at h ⊢
  simp only [hcheck, ok_bind, hret, Option.getD_some] at h ⊢
  exact h

namespace Ufunc

open Stateful

variable {u v : Ufunc} {d : Definition} {hosts : HostTable} {identity : Option Scalar}
  {options : Options}

/-! ## Functions that differ in their adapters -/

/-- Functions with the same loops and adapters that are what would be made anew. -/
structure Twins (u v : Ufunc) : Prop where
  same : SameButAdapters u v
  left : Coherent u
  right : Coherent v

theorem agree_twins {α : Type} {act : Action α} (h : Agree SameButAdapters act act)
    (hact : Keeps Coherent act) : Agree Twins act act := by
  intro u v huv
  obtain ⟨hanswer, hafter⟩ := h u v huv.same
  exact ⟨hanswer, hafter, hact.after huv.left, hact.after huv.right⟩

theorem congruent_twins : Congruent Twins where
  coherent h := ⟨h.left, h.right⟩
  definition h := by rw [h.same]
  identity h := by rw [h.same]
  resolve types := agree_twins (agree_resolve types) (stable_coherent.keeps_resolve types)
  adapterFor {u v l} h hu hv outer := by
    refine ⟨?_, h.left.adapterFor hu outer, h.right.adapterFor hv outer⟩
    have hsame := h.same
    have hu' := sameButAdapters_after_adapterFor u outer l
    have hv' := sameButAdapters_after_adapterFor v outer l
    unfold SameButAdapters at hsame hu' hv' ⊢
    rw [hu', hv', hsame]

theorem agree_freeze : Agree SameButAdapters freeze freeze := by
  unfold freeze
  refine Agree.get_bind fun u v huv => ?_
  rw [huv]
  dsimp only [name]
  split
  · exact .throw_bind _
  · intro s t _
    exact ⟨rfl, rfl⟩

theorem agree_compileForOperands (args : List Operand) (keywords : List (String × Operand)) :
    Agree SameButAdapters (compileForOperands args keywords)
      (compileForOperands args keywords) := by
  unfold compileForOperands
  refine Agree.get_bind fun u v huv => ?_
  have hnin : v.nin = u.nin := by rw [huv]; rfl
  have hnargs : v.nargs = u.nargs := by rw [huv]; rfl
  refine (Agree.liftM _).bind fun args => ?_
  have harity : v.arityError args.length = u.arityError args.length := by rw [huv]; rfl
  rw [hnin, hnargs, harity]
  dsimp only
  split
  · exact .throw_bind _
  · exact agree_compileFor _ none

/-- Twins answer every request alike, and they stay twins. -/
theorem twins_perform (r : Request) : Agree Twins (perform r) (perform r) := by
  have hcompile : ∀ args ret, Agree Twins (compileFor args ret) (compileFor args ret) :=
    fun args ret => agree_twins (agree_compileFor args ret) (keeps_compileFor Coherent.withLoop)
  have hfind : ∀ {u v : Ufunc}, Twins u v → ∀ args, u.find? args = v.find? args := by
    intro u v h args
    rw [h.same]
    rfl
  cases r with
  | add text =>
    have hadd : Agree Twins (add text) (add text) := by
      unfold add
      exact (Agree.liftM _).bind fun s => hcompile s.args s.ret
    exact hadd.map _
  | addSignature s => exact (hcompile s.args s.ret).map _
  | compileFor args ret => exact (hcompile args ret).map _
  | compileForOperands args keywords =>
    exact (agree_twins (agree_compileForOperands args keywords)
      (stable_coherent.keeps_compileForOperands args keywords)).map _
  | find args =>
    refine Agree.get_bind fun u v h => ?_
    rw [hfind h]
    exact .pure _
  | freeze =>
    have hkeeps : Keeps Coherent freeze := keeps_freeze fun h _ => ⟨h.loop, h.adapter⟩
    exact (agree_twins agree_freeze hkeeps).bind fun _ => .pure _
  | typeCall types => exact (congruent_twins.typeCall types).map _
  | call args keywords => exact (congruent_twins.call args keywords).map _
  | reduce a options => exact (congruent_twins.reduce a options).map _
  | invoke args values =>
    refine Agree.get_bind fun u v h => ?_
    rw [hfind h]
    split
    · exact (Agree.liftM _).bind fun _ => .pure _
    · exact .pure _
  | snapshot =>
    refine Agree.get_bind fun u v h => ?_
    rw [h.same]
    exact .pure _

/-! ## Loops that are compiled again -/

theorem addAll_signatures {before loops : List Loop} (hfrozen : u.frozen = false)
    (hlists : u.table.Lists before) (hdistinct : ((before ++ loops).map Loop.args).Nodup)
    (hloops : ∀ l ∈ loops, l.args.length = u.nin ∧
      Loop.compile u.definition u.hosts u.options l.args (some l.ret) = .ok l) :
    answer (addAll (loops.map Loop.signature)) u = .ok ⟨⟩ ∧
      ∃ table, after (addAll (loops.map Loop.signature)) u = { u with table } ∧
        table.Lists (before ++ loops) := by
  -- The loops that are there go along, since the next one must be new among them.
  induction loops generalizing u before with
  | nil => exact ⟨rfl, u.table, rfl, by rwa [List.append_nil]⟩
  | cons l loops ih =>
    obtain ⟨hlength, hcompile⟩ := hloops l (.head _)
    have hfresh : u.table.get? l.args = none := by
      rw [hlists.get?_eq_none, hlists.order]
      intro hmem
      rw [List.map_append, List.nodup_append] at hdistinct
      exact hdistinct.2.2 _ hmem _ (.head _) rfl
    have hl : u.Compiles l.args (some l.ret) l := ⟨hfrozen, hlength, hfresh, hcompile⟩
    obtain ⟨hanswer, hafter⟩ := hl.compileFor
    rw [List.append_cons] at hdistinct ⊢
    obtain ⟨hrest, table, htable, hall⟩ := ih (u := u.withLoop l) hfrozen (hl.lists hlists)
      hdistinct fun m hm => hloops m (.tail _ hm)
    have hcons : addAll ((l :: loops).map Loop.signature) =
        discard (compileFor l.args (some l.ret)) >>= fun _ =>
          addAll (loops.map Loop.signature) := rfl
    simp only [hcons, answer_bind, after_bind, answer_discard, after_discard, hanswer, hafter,
      map_ok, ok_bind]
    exact ⟨hrest, table, htable, hall⟩

theorem freeze_of_loops (h : u.table.isEmpty = false) :
    answer freeze u = .ok ⟨⟩ ∧ after freeze u = { u with frozen := true } := by
  unfold freeze
  simp [h]

theorem rebuild_of_lists {table : LoopTable} {loops : List Loop} {frozen : Bool}
    (hd : Definition.parse d.source = .ok d) (hlists : table.Lists loops)
    (hloops : ∀ l ∈ loops, l.args.length = d.nin ∧
      Loop.compile d hosts options l.args (some l.ret) = .ok l)
    (hfrozen : frozen = true → table.isEmpty = false) :
    rebuild ⟨d.source, identity, frozen, loops.map Loop.signature, options⟩ hosts =
      .ok ⟨d, hosts, identity, options, table, frozen, []⟩ := by
  obtain ⟨hanswer, table', hafter, hlists'⟩ := addAll_signatures
    (u := new d hosts identity options) rfl LoopTable.lists_empty hlists.distinct hloops
  -- Tables with the same loops in the same order are the same.
  obtain rfl : table' = table := hlists'.unique hlists
  let restore : Action Unit := do
    addAll (loops.map Loop.signature)
    if frozen then freeze
  have hrestore : answer restore (new d hosts identity options) = .ok ⟨⟩ ∧
      after restore (new d hosts identity options) =
        ⟨d, hosts, identity, options, table', frozen, []⟩ := by
    simp only [restore, answer_bind, after_bind, hanswer, hafter, ok_bind]
    cases frozen with
    | true =>
      rw [if_pos rfl]
      exact freeze_of_loops (hfrozen rfl)
    | false => exact ⟨rfl, rfl⟩
  have hrebuild : rebuild ⟨d.source, identity, frozen, loops.map Loop.signature, options⟩ hosts =
      answer restore (new d hosts identity options) >>= fun _ =>
        .ok (after restore (new d hosts identity options)) := by
    unfold rebuild
    rw [hd]
    rfl
  rw [hrebuild, hrestore.1, hrestore.2, ok_bind]

theorem rebuild_eq (hd : Definition.parse d.source = .ok d) (hu : Listed u)
    (hgrown : Grown (fun _ => True) (new d hosts identity options) u) :
    rebuild u.snapshot hosts = .ok { u with adapters := [] } := by
  obtain ⟨definition, hosts', identity', options', table, frozen, adapters⟩ := u
  obtain rfl : definition = d := hgrown.definition
  obtain rfl : hosts' = hosts := hgrown.hosts
  obtain rfl : identity' = identity := hgrown.identity
  obtain rfl : options' = options := hgrown.options
  apply rebuild_of_lists hd hu.lists ?_ hu.frozen
  intro l hl
  obtain ⟨args, hget⟩ := LoopTable.exists_get?_of_mem_toList hl
  obtain ⟨rfl, hlength, -⟩ := hu.coherent.loop hget
  refine ⟨hlength, ?_⟩
  rcases hgrown.loop _ l hget with hnew | ⟨ret, -, hcompile⟩
  · cases hnew
  · exact Loop.compile_again hcompile

theorem twins_forget (hu : Coherent u) : Twins u { u with adapters := [] } where
  same := rfl
  left := hu
  right := ⟨hu.loop, nofun⟩

/--
A function is made again from its snapshot, whatever has been asked of it. The function that is made
has the same snapshot, and the two answer alike all that is asked of both.
-/
theorem rebuild_snapshot {source : String} (hd : Definition.parse source = .ok d)
    {requests : List Request} (hu : u = (new d hosts identity options).afterAll requests) :
    ∃ v, rebuild u.snapshot hosts = .ok v ∧ v.snapshot = u.snapshot ∧ Twins u v ∧
      (∀ u' v' r, Twins u' v' → v'.snapshot = u'.snapshot ∧
        answer (perform r) u' = answer (perform r) v' ∧
        Twins (after (perform r) u') (after (perform r) v')) ∧
      ∀ more, u.answers more = v.answers more ∧ Twins (u.afterAll more) (v.afterAll more) := by
  have hnew : Reachable (new d hosts identity options) := .new hosts identity options hd
  have hlisted : Listed u := by
    have hdescends : Descends (new d hosts identity options) u := by
      rw [hu]
      exact keeps_afterAll (fun r _ => keeps_descends _ r) ⟨hnew.listed, .refl _⟩
    exact hdescends.listed
  have hgrown : Grown (fun _ => True) (new d hosts identity options) u := by
    rw [hu]
    exact keeps_afterAll (fun r _ => keeps_grown _ trivial) (.refl hnew.coherent)
  have htwins := twins_forget hlisted.coherent
  refine ⟨_, rebuild_eq (Definition.parse_source hd) hlisted hgrown, rfl, htwins, ?_, ?_⟩
  · intro u' v' r h
    refine ⟨?_, twins_perform r u' v' h⟩
    rw [h.same]
    rfl
  · intro more
    exact agree_answers twins_perform htwins more

/-! ## A frozen function -/

/-- A loop with a named return type, one that a call compiles, and the end of compilation. -/
def mixedRegistrations : List Request :=
  [.add "ii->d", .typeCall [.array .float32 1 .rowMajor, .scalar .int16], .freeze]

theorem rebuild_snapshot_difference :
    Definition.parse "f(a, b) = a - b" = .ok .difference ∧
      (difference.afterAll mixedRegistrations).snapshot =
        ⟨"f(a, b) = a - b", none, true,
          [⟨[.int32, .int32], some .float64⟩, ⟨[.float32, .int16], some .float32⟩], .default⟩ ∧
      ∃ v, rebuild (difference.afterAll mixedRegistrations).snapshot .empty = .ok v ∧
        ∀ more, (difference.afterAll mixedRegistrations).answers more = v.answers more := by
  have hd := Definition.parse_difference
  have hu : difference.afterAll mixedRegistrations =
      (new .difference .empty none .default).afterAll mixedRegistrations := rfl
  obtain ⟨v, hrebuild, -, -, -, hmore⟩ := rebuild_snapshot hd hu
  exact ⟨hd, by decide +kernel, v, hrebuild, fun more => (hmore more).1⟩

end Ufunc

end Pointwise

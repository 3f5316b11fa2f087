import Pointwise.Host.Stock
import Pointwise.Proofs.Definition.Calls
import Pointwise.Proofs.Evaluation
import Pointwise.Proofs.Loop.Compile
import Pointwise.Proofs.Native.Lowering

/-!
# The host functions of a loop

A compiled loop binds every call to a function of the host table. The number of the arguments is
kept in one byte: where it fits, the function takes as many arguments as the call gives it, and the
imports of the loop are the calls of its body.
-/

namespace Pointwise

/-- What a call stands for when it is checked, when it is evaluated and when it is lowered. -/
structure Scope.Binds (Γ : Scope) (name : String) (args : List Expr) (f : HostFn) : Prop where
  registered : Γ.hosts.get? name (UInt8.ofNat args.length) = some f
  checked : Γ.infer (.call name args) = .ok (.concrete f.ret)
  evaluated : ∀ values, Γ.eval values (.call name args) =
    Γ.evalAll values f.argType? args >>= Scope.callHost f
  lowered : ∀ code, Γ.lower (.call name args) = .ok code →
    ∃ g k, f = .native g ∧ Γ.lowerAll args = .ok k ∧ code = k ++ [.call g]

theorem Scope.exists_binds {Γ : Scope} {e : Expr} {t : Ty} (h : Γ.infer e = .ok t) {name : String}
    {args : List Expr} (hcall : .call name args ∈ e.nodes) : ∃ f, Γ.Binds name args f := by
  obtain ⟨s, hs⟩ := infer_node h hcall
  obtain ⟨-, f, hf, rfl⟩ := infer_call.1 hs
  refine ⟨f, hf, hs, fun values => eval_call hs hf, fun code hcode => ?_⟩
  obtain ⟨t, g, k, -, hg, -, hk, rfl⟩ := lower_call.1 hcode
  exact ⟨g, k, Option.some.inj (hf.symm.trans hg), hk, rfl⟩

theorem Expr.CallsFit.map_signatures {e : Expr} (h : e.CallsFit) :
    e.signatures.map (fun key => (key.1, min key.2 255)) = e.signatures := by
  conv_rhs => rw [← List.map_id e.signatures]
  refine List.map_congr_left fun ⟨name, n⟩ hkey => ?_
  obtain ⟨args, hcall, rfl⟩ := mem_signatures.1 hkey
  exact congrArg (Prod.mk name) (Nat.min_eq_left (h name args hcall))

namespace Loop

variable {d : Definition} {hosts : HostTable} {options : Options} {args : List DType}
  {ret : Option DType} {l : Loop} {body : Expr}

theorem imports_of_compile (h : compile d hosts options args ret = .ok l) :
    l.imports = d.hostCalls := by
  obtain ⟨body, t, entry, -, rfl, -⟩ := exists_of_compile h
  rfl

theorem imports_eq (h : compile d hosts options args ret = .ok l) (hbody : d.body = .ok body) :
    Expr.counted l.imports =
      Expr.firsts (body.signatures.map fun key => (key.1, min key.2 255)) := by
  rw [imports_of_compile h, Definition.hostCalls_of_body hbody, Expr.counted_calls]

/--
What a compiled loop runs binds every call to a function that is registered under its name for as
many arguments as the call has, and the imports are the names and argument counts of the calls, each
once and in the order in which they first appear. In a boxed loop, no call may have more arguments
than an arity can count.
-/
theorem calls_bound_and_imported (registered : hosts.Registered)
    (h : compile d hosts options args ret = .ok l) (hbody : d.body = .ok body)
    (hfit : l.isBoxed = true → body.CallsFit) :
    (l.entry = .boxed ⟨d, hosts, args, l.ret⟩ ∨
      ∃ code, (d.scope hosts args).lowerAs body l.ret = .ok code ∧ l.entry = .native code) ∧
    (∀ name as, .call name as ∈ body.nodes →
      ∃ f, (d.scope hosts args).Binds name as f ∧ f.arity.toNat = as.length ∧
        (l.isBoxed = false → ∃ code, (d.scope hosts args).lower (.call name as) = .ok code)) ∧
    (∀ name n, (name, n) ∈ Expr.counted l.imports ↔
      ∃ as, .call name as ∈ body.nodes ∧ as.length = n) ∧
    (Expr.counted l.imports).Nodup ∧
    (Expr.counted l.imports).Pairwise
      fun x y => body.signatures.idxOf x < body.signatures.idxOf y := by
  obtain ⟨body', t, hcheck, -, -, hentry⟩ := compile_eq_ok h
  obtain ⟨-, hbody', ht⟩ := Definition.check_eq_ok.1 hcheck
  cases hbody'.symm.trans hbody
  have hlower (hl : l.isBoxed = false) : ∃ code, (d.scope hosts args).lower body = .ok code := by
    rcases hentry with hboxed | ⟨code, hcode, -⟩
    · simp [isBoxed, hboxed, Entry.isNative] at hl
    · exact Scope.lower_of_codeAs hcode
  have hfits : body.CallsFit := by
    cases hl : l.isBoxed with
    | true => exact hfit hl
    | false => exact (hlower hl).elim fun code hcode => Scope.callsFit_of_lower hcode
  have himports : Expr.counted l.imports = Expr.firsts body.signatures := by
    rw [imports_eq h hbody, hfits.map_signatures]
  refine ⟨hentry, fun name as hcall => ?bound, fun name n => ?listed, ?once, ?inOrder⟩
  case bound =>
    obtain ⟨f, hf⟩ := Scope.exists_binds ht hcall
    refine ⟨f, hf, ?_, fun hl => (hlower hl).elim fun code hcode => Scope.lower_node hcode hcall⟩
    rw [registered.arity_eq hf.registered, UInt8.toNat_ofNat']
    exact Nat.mod_eq_of_lt (Nat.lt_succ_of_le (hfits name as hcall))
  case listed => rw [himports, Expr.mem_firsts, Expr.mem_signatures]
  case once => exact himports ▸ Expr.nodup_firsts body.signatures
  case inOrder => exact himports ▸ Expr.pairwise_firsts body.signatures

end Loop

/-! ## A definition with calls of two arities -/

def Expr.sums : Expr :=
  .arith .add (.call "sum" [.call "sum" [.var "a"], .call "sum" [.var "a", .var "b"]])
    (.call "sum" [.var "b"])

def Definition.sums : Definition :=
  ⟨"f", ["a", "b"], [.sums], "f(a, b) = sum(sum(a), sum(a, b)) + sum(b)"⟩

def HostTable.summing : HostTable :=
  ⟨[(("sum", 2), HostFn.sum 2 .float64), (("sum", 1), HostFn.sum 1 .float64)]⟩

theorem HostTable.registered_summing : HostTable.summing.Registered :=
  .register (.register .empty (show HostTable.empty.register "sum" (HostFn.sum 1 .float64) = _
    from rfl)) (show HostTable.register _ "sum" (HostFn.sum 2 .float64) = _ from rfl)

theorem Expr.callsFit_sums : Expr.sums.CallsFit := by
  intro name args hn
  simp only [sums, nodes, nodesOfAll, List.cons_append, List.nil_append, List.append_nil,
    List.mem_cons, List.not_mem_nil, reduceCtorEq, false_or, or_false, call.injEq] at hn
  rcases hn with ⟨-, rfl⟩ | ⟨-, rfl⟩ | ⟨-, rfl⟩ | ⟨-, rfl⟩ <;> decide

def Loop.sums : Loop :=
  ⟨[.int32, .float64], .float64, .boxed ⟨.sums, .summing, [.int32, .float64], .float64⟩, "f_<id>",
    [("sum", 2), ("sum", 1)]⟩

theorem Loop.calls_bound_and_imported_sums :
    HostTable.summing.Registered ∧
      compile .sums .summing .default [.int32, .float64] none = .ok Loop.sums ∧
      Definition.sums.body = .ok .sums ∧ (Loop.sums.isBoxed = true → Expr.sums.CallsFit) ∧
      (∃ f, (Definition.sums.scope .summing [.int32, .float64]).Binds "sum"
        [.var "a", .var "b"] f ∧ f.arity.toNat = 2) ∧
      Expr.counted Loop.sums.imports = [("sum", 2), ("sum", 1)] ∧
      (∀ name n, (name, n) ∈ Expr.counted Loop.sums.imports ↔
        ∃ as, .call name as ∈ Expr.sums.nodes ∧ as.length = n) := by
  have hcompile : compile .sums .summing .default [.int32, .float64] none = .ok Loop.sums := rfl
  obtain ⟨-, hbound, hlisted, -, -⟩ := calls_bound_and_imported HostTable.registered_summing
    hcompile rfl fun _ => Expr.callsFit_sums
  have hcall : Expr.call "sum" [.var "a", .var "b"] ∈ Expr.sums.nodes := by
    simp [Expr.sums, Expr.nodes, Expr.nodesOfAll]
  obtain ⟨f, hf, harity, -⟩ := hbound _ _ hcall
  exact ⟨HostTable.registered_summing, hcompile, rfl, fun _ => Expr.callsFit_sums, ⟨f, hf, harity⟩,
    rfl, hlisted⟩

/-! ## A call with more arguments than an arity can count -/

def Expr.longCall : Expr := .call "count" (List.replicate 256 (.var "x"))

def Definition.longCall : Definition :=
  ⟨"f", ["x"], [.longCall],
    "f(x) = count(" ++ ", ".intercalate (List.replicate 256 "x") ++ ")"⟩

def HostTable.counting : HostTable := ⟨[(("count", 0), HostFn.count 0 .int64)]⟩

theorem HostTable.registered_counting : HostTable.counting.Registered :=
  .register .empty (show HostTable.empty.register "count" (HostFn.count 0 .int64) = _ from rfl)

/-- The call of 256 arguments is bound to a function of none, and recorded with 255. -/
theorem Loop.calls_wrap_around :
    HostTable.counting.Registered ∧
      ∃ l, compile .longCall .counting .default [.int64] none = .ok l ∧
        .call "count" (List.replicate 256 (.var "x")) ∈ Expr.longCall.nodes ∧
        (∃ f, (Definition.longCall.scope .counting [.int64]).Binds "count"
          (List.replicate 256 (.var "x")) f ∧ f.arity = 0) ∧
        l.imports = [("count", 255)] := by
  have hget : HostTable.counting.get? "count"
      (UInt8.ofNat (List.replicate 256 (Expr.var "x")).length) = some (HostFn.count 0 .int64) := by
    rw [List.length_replicate]
    rfl
  have hinfer : (Definition.longCall.scope .counting [.int64]).infer .longCall =
      .ok (.concrete .int64) := by
    refine Scope.infer_call.2 ⟨fun a ha => ?_, HostFn.count 0 .int64, hget, rfl⟩
    obtain rfl := List.eq_of_mem_replicate ha
    exact ⟨.concrete .int64, rfl⟩
  have hboxed : (Definition.longCall.scope .counting [.int64]).usesBoxed .longCall = true := by
    refine List.any_eq_true.2 ⟨.longCall, Expr.mem_nodes_self _, ?_⟩
    simp only [Scope.callsBoxed, Expr.longCall, Definition.scope, hget]
    rfl
  have hcheck := Definition.check_eq_ok.2 ⟨rfl, rfl, hinfer⟩
  have himports : Definition.longCall.hostCalls = [("count", 255)] := by decide +kernel
  obtain ⟨f, hf⟩ := Scope.exists_binds hinfer (Expr.mem_nodes_self _)
  refine ⟨HostTable.registered_counting, _, compile_usesBoxed hcheck hboxed, Expr.mem_nodes_self _,
    ⟨f, hf, ?_⟩, himports⟩
  cases hf.registered.symm.trans hget
  rfl

end Pointwise

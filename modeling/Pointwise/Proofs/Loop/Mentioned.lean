import Pointwise.Proofs.Definition.Accepted
import Pointwise.Proofs.Definition.Equality
import Pointwise.Proofs.Loop.HostErrors
import Pointwise.Proofs.Loop.RenamedParameters
import Pointwise.Proofs.Native.Loads

/-!
# Mentioned parameters

A compiled definition depends on the parameters that its body mentions and on no others, in both
modes. No other names are looked up, so a definition that was read never misses one.
-/

namespace Pointwise

variable {Γ Δ : Scope} {e body : Expr} {values values' : List Scalar} {x : String}

/-! ## Two scopes -/

theorem Expr.renameVars_id (e : Expr) : renameVars id e = e := by
  induction e using Expr.induct with
  | int | float | bool | var => rfl
  | neg x h | not x h => simp [h]
  | arith _ a b ha hb | compare _ a b ha hb | and a b ha hb | or a b ha hb => simp [ha, hb]
  | cond c a b hc ha hb => simp [hc, ha, hb]
  | call name args h =>
    rw [renameVars_call, List.map_congr_left h, List.map_id']

namespace Scope

theorem mirrored_id (hname : Δ.name = Γ.name) (hhosts : Δ.hosts = Γ.hosts)
    (htypes : ∀ x ∈ e.vars, Δ.paramType? x = Γ.paramType? x) : Mirrored id Γ Δ e :=
  ⟨hname, hhosts, fun x hx => by rw [id, infer, infer, htypes x (Expr.mem_vars.2 hx)]⟩

theorem Mirrored.infer_self (h : Mirrored id Γ Δ e) : Δ.infer e = Γ.infer e := by
  have hinfer := h.infer_eq
  rwa [Expr.renameVars_id] at hinfer

theorem Mirrored.eval_self (h : Mirrored id Γ Δ e)
    (hvalues : ∀ x ∈ e.vars,
      (Δ.index? x).bind (values'[·]?) = (Γ.index? x).bind (values[·]?)) :
    Δ.eval values' e = Γ.eval values e := by
  have hvars : ∀ x, .var x ∈ e.nodes → Δ.eval values' (.var x) = Γ.eval values (.var x) := by
    intro x hx
    have ht : Δ.typeOf (.var x) = Γ.typeOf (.var x) := h.typeOf_var hx
    rw [eval, eval, ht, hvalues x (Expr.mem_vars.2 hx)]
  have heval := h.eval_eq hvars
  rwa [Expr.renameVars_id] at heval

theorem Mirrored.lower_self (h : Mirrored id Γ Δ e)
    (hindex : ∀ x ∈ e.vars, Δ.index? x = Γ.index? x) : Δ.lower e = Γ.lower e := by
  have hlower := h.lower_eq fun x hx => ⟨hindex x (Expr.mem_vars.2 hx), fun _ => rfl⟩
  rwa [Expr.renameVars_id] at hlower

/-- Nothing else is taken from a scope than what it says about the names in an expression. -/
theorem agree_on_vars (hname : Δ.name = Γ.name) (hhosts : Δ.hosts = Γ.hosts)
    (h : ∀ x ∈ e.vars, Δ.index? x = Γ.index? x ∧ Δ.paramType? x = Γ.paramType? x) :
    Δ.infer e = Γ.infer e ∧ Δ.lower e = Γ.lower e ∧
      ∀ values values' : List Scalar,
        (∀ x ∈ e.vars, (Δ.index? x).bind (values'[·]?) = (Γ.index? x).bind (values[·]?)) →
        Δ.eval values' e = Γ.eval values e := by
  have hmirrored := mirrored_id hname hhosts fun x hx => (h x hx).2
  exact ⟨hmirrored.infer_self, hmirrored.lower_self fun x hx => (h x hx).1,
    fun values values' => hmirrored.eval_self⟩

end Scope

/-! ## Two runs -/

namespace Loop

variable {d : Definition} {hosts : HostTable} {options : Options} {args : List DType}
  {ret : Option DType} {l : Loop}

/-- Whether arguments are the same where an expression mentions a parameter. -/
def AgreeOn (d : Definition) (e : Expr) (values values' : List Scalar) : Prop :=
  ∀ x ∈ e.vars, ∀ i, d.paramIndex? x = some i → values[i]? = values'[i]?

theorem eval_agree (hosts : HostTable) (args : List DType) (h : AgreeOn d e values values') :
    (d.scope hosts args).eval values e = (d.scope hosts args).eval values' e := by
  refine (Scope.mirrored_id rfl rfl fun _ _ => rfl).eval_self fun x hx => ?_
  change (d.paramIndex? x).bind (values[·]?) = (d.paramIndex? x).bind (values'[·]?)
  cases hindex : d.paramIndex? x with
  | none => rfl
  | some i => exact h x hx i hindex

theorem invoke_agree (h : compile d hosts options args ret = .ok l) (hbody : d.body = .ok body)
    (hvalues : values.map Scalar.dtype = args) (hvalues' : values'.map Scalar.dtype = args)
    (hagree : AgreeOn d body values values') : l.invoke values = l.invoke values' := by
  obtain ⟨body', t, hcheck, rfl, -, hentry⟩ := compile_eq_ok h
  obtain ⟨-, hbody', -⟩ := Definition.check_eq_ok.1 hcheck
  cases hbody.symm.trans hbody'
  rcases hentry with hentry | ⟨code, hcode, hentry⟩
  · rw [invoke_boxed hentry hvalues, invoke_boxed hentry hvalues',
      BoxedKernel.call_eq hbody hvalues, BoxedKernel.call_eq hbody hvalues', Scope.evalAs,
      Scope.evalAs, eval_agree hosts l.args hagree]
  · have hslots : ∀ i ∈ Native.loads code,
        (values.map slot).getD i 0 = (values'.map slot).getD i 0 := by
      intro i hi
      obtain ⟨x, hx, hindex⟩ := Scope.loadsOnly_lowerAs hcode i hi
      rw [List.getD_eq_getElem?_getD, List.getD_eq_getElem?_getD, List.getElem?_map,
        List.getElem?_map, hagree x (Expr.mem_vars.2 hx) i hindex]
    rw [invoke_native hentry hvalues, invoke_native hentry hvalues',
      Native.run_congr code [] hslots]

end Loop

/-! ## Definitions that were read -/

/-- An error for want of a name can only be that of a host function. -/
def HostTable.Names (hosts : HostTable) (err : Error) : Prop :=
  ∀ x, err = .unknownIdent x → hosts.Raises err

theorem HostTable.Names.of_not {hosts : HostTable} {err : Error}
    (h : err.isUnknownIdent = false) : hosts.Names err := by
  rintro x rfl
  cases h

namespace Definition

/-- Whether every name in the body is that of a parameter. -/
def Closed (d : Definition) : Prop :=
  ∀ e, d.body = .ok e → ∀ x, .var x ∈ e.nodes → ∃ i < d.nin, d.paramIndex? x = some i

variable {d : Definition} {text : String} {hosts : HostTable} {args : List DType}

theorem closed_of_parse (h : parse text = .ok d) : d.Closed := by
  intro e he x hx
  have hmem := (accepted_of_parse h).mem_params e (mem_outputs_of_body he) x hx
  have hfound : (d.paramIndex? x).isSome = true := by
    simpa [paramIndex?, List.findIdx?_isSome] using hmem
  obtain ⟨i, hi⟩ := Option.isSome_iff_exists.1 hfound
  exact ⟨i, (List.findIdx?_eq_some_iff_getElem.1 hi).1, hi⟩

theorem Closed.exists_index (h : d.Closed) (hbody : d.body = .ok body) (hx : .var x ∈ body.nodes)
    (hosts : HostTable) (args : List DType) :
    ∃ i < d.nin, (d.scope hosts args).index? x = some i :=
  h body hbody x hx

theorem body_ends (d : Definition) :
    Ends d.body (d.body = .ok ·) (·.isUnknownIdent = false) := by
  cases hbody : d.body with
  | ok e => exact .ok rfl
  | error err =>
    unfold body at hbody
    split at hbody <;> cases hbody
    exact .error rfl

theorem Closed.check_ends (h : d.Closed) (hosts : HostTable) (args : List DType) :
    Ends (d.check hosts args) (fun p => args.length = d.nin ∧ d.body = .ok p.1)
      (·.isUnknownIdent = false) := by
  unfold check
  split
  · exact .error rfl
  next hargs =>
  have hlength : args.length = d.nin := not_not.1 hargs
  refine d.body_ends.bind fun body hbody => ?_
  have hknown : ∀ x, .var x ∈ body.nodes → (d.scope hosts args).paramType? x ≠ none := by
    intro x hx hnone
    obtain ⟨i, hi, hindex⟩ := h.exists_index hbody hx hosts args
    rw [Scope.paramType?, hindex, Option.bind_some] at hnone
    exact absurd (List.getElem?_eq_none_iff.1 hnone) (Nat.not_le.2 (hlength ▸ hi))
  have hinfer := (Scope.infer_misses (Γ := d.scope hosts args) body).mono (fun _ => id)
    fun _ hmiss => hmiss.isUnknownIdent_eq_false hknown
  exact hinfer.bind fun t _ => .ok ⟨hlength, hbody⟩

end Definition

namespace Loop

variable {d : Definition} {hosts : HostTable} {args : List DType} {l : Loop}

theorem compile_ends (h : d.Closed) (hosts : HostTable) (options : Options) (args : List DType)
    (ret : Option DType) :
    Ends (compile d hosts options args ret) (fun _ => True) (·.isUnknownIdent = false) := by
  simp only [compile, throw_eq_error, error_bind, pure_eq_ok]
  split
  · exact .error rfl
  refine (h.check_ends hosts args).bind fun checked hchecked => ?_
  obtain ⟨body, t⟩ := checked
  dsimp only
  split
  · split
    · exact .error rfl
    · exact .ok trivial
  · have hknown : ∀ x, .var x ∈ body.nodes → (d.scope hosts args).index? x ≠ none := by
      intro x hx hnone
      obtain ⟨i, -, hindex⟩ := h.exists_index hchecked.2 hx hosts args
      cases hindex.symm.trans hnone
    have hcode := (Scope.lowerAs_misses (Γ := d.scope hosts args) body (ret.getD t.dtype)).mono
      (fun _ => id) fun _ hmiss => hmiss.isUnknownIdent_eq_false hknown
    exact hcode.bind fun code _ => .ok trivial

theorem call_names {k : BoxedKernel} (h : k.definition.Closed)
    (hargs : k.args.length = k.definition.nin) (values : List Scalar) :
    Ends (k.call values) (fun _ => True) k.hosts.Names := by
  unfold BoxedKernel.call
  split
  · exact .error (.of_not rfl)
  next hvalues =>
  refine (k.definition.body_ends.mono (fun _ => id) fun _ => HostTable.Names.of_not).bind
    fun body hbody => ?_
  refine (Scope.asType_ends k.ret (Scope.eval_fails body)).mono (fun _ _ => trivial)
    fun err hfails => ?_
  cases hfails with
  | operation hoperation => exact .of_not (by cases err <;> first | rfl | cases hoperation)
  | missing hx hnone =>
    obtain ⟨i, hi, hindex⟩ := h.exists_index hbody hx k.hosts k.args
    have hlength : i < (List.zipWith Scalar.cast values k.args).length := by
      rw [List.length_zipWith, not_not.1 hvalues, Nat.min_self, hargs]
      exact hi
    rw [hindex, Option.bind_some, List.getElem?_eq_getElem hlength] at hnone
    cases hnone
  | raised hraised => exact fun _ _ => hraised

theorem invoke_names {options : Options} {ret : Option DType} (h : d.Closed)
    (hl : compile d hosts options args ret = .ok l) (values : List Scalar) :
    Ends (l.invoke values) (fun _ => True) hosts.Names := by
  obtain ⟨body, t, hcheck, hargs, -, hentry⟩ := compile_eq_ok hl
  simp only [invoke, throw_eq_error, error_bind, pure_eq_ok]
  split
  · exact .error (.of_not rfl)
  split
  · exact .error (.of_not rfl)
  rcases hentry with hentry | ⟨code, -, hentry⟩
  · rw [hentry]
    exact (call_names (k := ⟨d, hosts, args, l.ret⟩) h (Definition.check_eq_ok.1 hcheck).1
      values).bind fun _ _ => .ok trivial
  · rw [hentry]
    exact .ok trivial

end Loop

/-! ## Both directions -/

/--
A loop returns the same, or fails alike, on arguments that agree on the parameters listed for the
body. Every name in an expression is listed, and two scopes that agree on what is listed give the
same types, the same code and the same values. A name is only missed if it is listed and unknown. So
a definition that was read never misses one, unless a boxed host function fails with that error.
-/
theorem Definition.depends_on_mentioned :
    (∀ (d : Definition) (hosts : HostTable) (options : Options) (args : List DType)
      (ret : Option DType) (l : Loop) (body : Expr),
      Loop.compile d hosts options args ret = .ok l → d.body = .ok body →
      ∀ values values' : List Scalar,
        values.map Scalar.dtype = args → values'.map Scalar.dtype = args →
        (∀ x ∈ body.vars, ∀ i, d.paramIndex? x = some i → values[i]? = values'[i]?) →
        l.invoke values = l.invoke values') ∧
    (∀ (e : Expr) (x : String), x ∈ e.vars ↔ .var x ∈ e.nodes) ∧
    (∀ (Γ Δ : Scope) (e : Expr), Δ.name = Γ.name → Δ.hosts = Γ.hosts →
      (∀ x ∈ e.vars, Δ.index? x = Γ.index? x ∧ Δ.paramType? x = Γ.paramType? x) →
      Δ.infer e = Γ.infer e ∧ Δ.lower e = Γ.lower e ∧
        ∀ values values' : List Scalar,
          (∀ x ∈ e.vars, (Δ.index? x).bind (values'[·]?) = (Γ.index? x).bind (values[·]?)) →
          Δ.eval values' e = Γ.eval values e) ∧
    (∀ (Γ : Scope) (e : Expr) (x : String),
      (Γ.infer e = .error (.unknownIdent x) → x ∈ e.vars ∧ Γ.paramType? x = none) ∧
      (Γ.lower e = .error (.unknownIdent x) → x ∈ e.vars ∧ Γ.index? x = none) ∧
      ∀ values, Γ.eval values e = .error (.unknownIdent x) →
        (x ∈ e.vars ∧ (Γ.index? x).bind (values[·]?) = none) ∨
          Γ.hosts.Raises (.unknownIdent x)) ∧
    ∀ (text : String) (d : Definition), parse text = .ok d →
      ∀ (hosts : HostTable) (args : List DType) (x : String),
        d.check hosts args ≠ .error (.unknownIdent x) ∧
        ∀ (options : Options) (ret : Option DType),
          Loop.compile d hosts options args ret ≠ .error (.unknownIdent x) ∧
          ∀ l, Loop.compile d hosts options args ret = .ok l → ∀ values,
            l.invoke values = .error (.unknownIdent x) → hosts.Raises (.unknownIdent x) := by
  refine ⟨fun d hosts options args ret l body hl hbody values values' hvalues hvalues' =>
    Loop.invoke_agree hl hbody hvalues hvalues', fun e x => Expr.mem_vars,
    fun Γ Δ e hname hhosts h => Scope.agree_on_vars hname hhosts h, fun Γ e x => ⟨?infer, ?lower,
    fun values => ?eval⟩, fun text d hparse hosts args x => ⟨?check, fun options ret =>
      ⟨?compile, fun l hl values => ?invoke⟩⟩⟩
  case infer =>
    intro h
    have hmiss := (Scope.infer_misses e).of_error h x rfl
    exact ⟨Expr.mem_vars.2 hmiss.1, hmiss.2⟩
  case lower =>
    intro h
    have hmiss := (Scope.lower_misses e).of_error h x rfl
    exact ⟨Expr.mem_vars.2 hmiss.1, hmiss.2⟩
  case eval =>
    intro h
    cases (Scope.eval_fails e).of_error h with
    | operation h => cases h
    | missing hx hnone => exact .inl ⟨Expr.mem_vars.2 hx, hnone⟩
    | raised h => exact .inr h
  case check =>
    intro h
    cases ((closed_of_parse hparse).check_ends hosts args).of_error h
  case compile =>
    intro h
    cases (Loop.compile_ends (closed_of_parse hparse) hosts options args ret).of_error h
  case invoke =>
    intro h
    exact (Loop.invoke_names (closed_of_parse hparse) hl values).of_error h x rfl

namespace Definition

def pickBody : Expr := .cond (.compare .gt (.var "c") (.int 0)) (.var "x") (.neg (.var "x"))

def pick : Definition :=
  ⟨"pick", ["c", "unused", "x"], [pickBody], "pick(c, unused, x) = if(c > 0, x, -x)"⟩

theorem parse_pick : parse "pick(c, unused, x) = if(c > 0, x, -x)" = .ok pick := by
  decide +kernel

/-- The second parameter is not mentioned, neither in machine code nor on boxed scalars. -/
theorem depends_on_mentioned_pick :
    ∃ l l', Loop.compile pick .empty .default [.int64, .int64, .float64] none = .ok l ∧
      Loop.compile pick .empty ⟨false, true⟩ [.int64, .int64, .float64] none = .ok l' ∧
      l.invoke [.int64 1, .int64 2, .float64 0] = l.invoke [.int64 1, .int64 3, .float64 0] ∧
      l'.invoke [.int64 1, .int64 2, .float64 0] = l'.invoke [.int64 1, .int64 3, .float64 0] ∧
      ∀ x, pick.check .empty [.int64, .int64, .float64] ≠ .error (.unknownIdent x) := by
  have hcompiles : ∀ options ∈ [Options.default, ⟨false, true⟩],
      ∃ l, Loop.compile pick .empty options [.int64, .int64, .float64] none = .ok l := by
    decide +kernel
  obtain ⟨l, hl⟩ := hcompiles .default (.head _)
  obtain ⟨l', hl'⟩ := hcompiles ⟨false, true⟩ (.tail _ (.head _))
  have hvars : pickBody.vars = ["c", "x"] := by decide +kernel
  have hc : pick.paramIndex? "c" = some 0 := by decide +kernel
  have hx : pick.paramIndex? "x" = some 2 := by decide +kernel
  have hagree : ∀ x ∈ pickBody.vars, ∀ i, pick.paramIndex? x = some i →
      [Scalar.int64 1, .int64 2, .float64 0][i]? = [Scalar.int64 1, .int64 3, .float64 0][i]? := by
    rw [hvars]
    intro x hmem i hi
    rcases List.mem_pair.1 hmem with rfl | rfl
    · cases hc.symm.trans hi
      rfl
    · cases hx.symm.trans hi
      rfl
  exact ⟨l, l', hl, hl', depends_on_mentioned.1 _ _ _ _ _ _ _ hl rfl _ _ rfl rfl hagree,
    depends_on_mentioned.1 _ _ _ _ _ _ _ hl' rfl _ _ rfl rfl hagree,
    fun x => (depends_on_mentioned.2.2.2.2 _ _ parse_pick _ _ x).1⟩

end Definition

end Pointwise

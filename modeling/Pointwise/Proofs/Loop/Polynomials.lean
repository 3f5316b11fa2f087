import Pointwise.Proofs.Definition.Accepted
import Pointwise.Proofs.Definition.Equality
import Pointwise.Proofs.Loop.Modes
import Pointwise.Proofs.Scalar.Integers

/-!
# Polynomials of integers

A body made of parameters, literals, negations, sums, differences and products is a polynomial. On
integers of one type a loop computes it modulo the number of elements of that type. Parts made of
literals alone are evaluated with 64 bits first, which every type of integers divides.
-/

namespace Pointwise

def ArithOp.IsRing (op : ArithOp) : Prop := op = .add ∨ op = .sub ∨ op = .mul

namespace ArithOp.IsRing

variable {op : ArithOp}

theorem onIntegers_modEq (h : op.IsRing) {k m m' n n' : Int} (hm : m ≡ m' [ZMOD k])
    (hn : n ≡ n' [ZMOD k]) : op.onIntegers m n ≡ op.onIntegers m' n' [ZMOD k] := by
  rcases h with rfl | rfl | rfl
  · exact hm.add hn
  · exact hm.sub hn
  · exact hm.mul hn

theorem ne_div (h : op.IsRing) : op ≠ .div := by
  rcases h with rfl | rfl | rfl <;> decide

theorem not_extremum (h : op.IsRing) : ¬(op = .max ∨ op = .min) := by
  rcases h with rfl | rfl | rfl <;> decide

theorem result_eq (h : op.IsRing) (s u : Ty) : Ty.result op s u = s.arith u := by
  rcases h with rfl | rfl | rfl <;> rfl

end ArithOp.IsRing

namespace Expr

inductive IsPolynomial : Expr → Prop
  | int (n : Int) : IsPolynomial (.int n)
  | var (x : String) : IsPolynomial (.var x)
  | neg {x : Expr} : IsPolynomial x → IsPolynomial (.neg x)
  | arith {op : ArithOp} {a b : Expr} :
    op.IsRing → IsPolynomial a → IsPolynomial b → IsPolynomial (.arith op a b)

/-- The integer that a polynomial is for given integers. -/
def number (ρ : String → Int) : Expr → Int
  | .int n => n
  | .var x => ρ x
  | .neg x => -x.number ρ
  | .arith op a b => op.onIntegers (a.number ρ) (b.number ρ)
  | _ => 0

namespace IsPolynomial

variable {e : Expr}

theorem of_mem_nodes (h : e.IsPolynomial) {n : Expr} (hn : n ∈ e.nodes) : n.IsPolynomial := by
  induction h with
  | int m =>
    obtain rfl : n = .int m := by simpa [nodes] using hn
    exact .int m
  | var x =>
    obtain rfl : n = .var x := by simpa [nodes] using hn
    exact .var x
  | @neg x hx ih =>
    rcases mem_nodes.1 hn with rfl | ⟨m, hm, hnm⟩
    · exact .neg hx
    · obtain rfl : m = x := by simpa [parts] using hm
      exact ih hnm
  | @arith op a b hop ha hb iha ihb =>
    rcases mem_nodes.1 hn with rfl | ⟨m, hm, hnm⟩
    · exact .arith hop ha hb
    · obtain rfl | rfl : m = a ∨ m = b := by simpa [parts] using hm
      · exact iha hnm
      · exact ihb hnm

theorem callsNative (h : e.IsPolynomial) (hosts : HostTable) : e.CallsNative hosts :=
  fun _ _ hn => nomatch h.of_mem_nodes hn

theorem noFloatExtremum (h : e.IsPolynomial) (Γ : Scope) : Γ.NoFloatExtremum e := by
  intro op a b t hn hop
  cases h.of_mem_nodes hn with
  | arith hring => exact absurd hop hring.not_extremum

end IsPolynomial

end Expr

/-! ## Types -/

/-- The types of polynomials whose variables have one type: a literal leaves it open. -/
def Ty.Admits (t : DType) (u : Ty) : Prop := u = .weakInt ∨ u = .concrete t

namespace Ty.Admits

variable {t : DType} {u s : Ty}

theorem isInteger (ht : t.isInteger = true) (h : Ty.Admits t u) : u.dtype.isInteger = true := by
  rcases h with rfl | rfl
  · rfl
  · exact ht

theorem ne_bool (ht : t.isInteger = true) (h : Ty.Admits t u) : u ≠ .concrete .bool := by
  rcases h with rfl | rfl
  · nofun
  · rintro ⟨⟩
    cases ht

theorem concrete_arith (ht : t.isInteger = true) (h : Ty.Admits t u) :
    (Ty.concrete t).arith u = .concrete t ∧ u.arith (.concrete t) = .concrete t := by
  cases t with
  | bool | float32 | float64 => cases ht
  | int8 | int16 | int32 | int64 | uint8 | uint16 | uint32 | uint64 =>
    rcases h with rfl | rfl <;> exact ⟨rfl, rfl⟩

theorem arith (ht : t.isInteger = true) (hs : Ty.Admits t s) (hu : Ty.Admits t u) :
    Ty.Admits t (s.arith u) ∧ (s.arith u).dtype.width ≤ s.dtype.width ∧
      (s.arith u).dtype.width ≤ u.dtype.width := by
  have hwidth : t.width ≤ DType.width .int64 := t.width_le_lane.trans t.lane.width_le
  rcases hs with rfl | rfl
  · rcases hu with rfl | rfl
    · exact ⟨.inl rfl, Nat.le_refl _, Nat.le_refl _⟩
    · rw [(concrete_arith ht (.inl rfl)).2]
      exact ⟨.inr rfl, hwidth, Nat.le_refl _⟩
  · rw [(concrete_arith ht hu).1]
    rcases hu with rfl | rfl
    · exact ⟨.inr rfl, Nat.le_refl _, hwidth⟩
    · exact ⟨.inr rfl, Nat.le_refl _, Nat.le_refl _⟩

end Ty.Admits

namespace Scope

variable {Γ : Scope} {values : List Scalar} {t : DType} {e : Expr}

/-- The integer that a parameter stands for. -/
def number (Γ : Scope) (values : List Scalar) (x : String) : Int :=
  ((Γ.index? x).bind (values[·]?)).elim 0 Scalar.toInt

theorem infer_polynomial (ht : t.isInteger = true) (he : e.IsPolynomial)
    (hvars : ∀ x, .var x ∈ e.nodes → Γ.paramType? x = some t) :
    Γ.infer e = .ok (.concrete t) ∨ Γ.infer e = .ok .weakInt ∧ ∀ x, .var x ∉ e.nodes := by
  induction he with
  | int n => exact .inr ⟨rfl, fun x hx => by simp [Expr.nodes] at hx⟩
  | var x => exact .inl (infer_var.2 ⟨t, hvars x (Expr.mem_nodes_self _), rfl⟩)
  | @neg x hx ih =>
    rcases ih fun y hy => hvars y (by simp [Expr.nodes, hy]) with h | ⟨h, hnone⟩
    · exact .inl (infer_neg.2 ⟨h, Ty.Admits.ne_bool ht (.inr rfl)⟩)
    · refine .inr ⟨infer_neg.2 ⟨h, Ty.Admits.ne_bool ht (.inl rfl)⟩, fun y hy => hnone y ?_⟩
      simpa [Expr.nodes] using hy
  | @arith op a b hop ha hb iha ihb =>
    have hresult {s u : Ty} (hs : Γ.infer a = .ok s) (hu : Γ.infer b = .ok u) :
        Γ.infer (.arith op a b) = .ok (s.arith u) :=
      infer_arith.2 ⟨s, u, hs, hu, (hop.result_eq s u).symm⟩
    have hleft := iha fun y hy => hvars y (by simp [Expr.nodes, hy])
    have hright := ihb fun y hy => hvars y (by simp [Expr.nodes, hy])
    rcases hleft with hs | ⟨hs, hnone⟩
    · rcases hright with hu | ⟨hu, -⟩
      · exact .inl ((Ty.Admits.concrete_arith ht (.inr rfl)).1 ▸ hresult hs hu)
      · exact .inl ((Ty.Admits.concrete_arith ht (.inl rfl)).1 ▸ hresult hs hu)
    · rcases hright with hu | ⟨hu, hnone'⟩
      · exact .inl ((Ty.Admits.concrete_arith ht (.inl rfl)).2 ▸ hresult hs hu)
      · refine .inr ⟨hresult hs hu, fun y hy => ?_⟩
        rcases (by simpa [Expr.nodes] using hy : .var y ∈ a.nodes ∨ .var y ∈ b.nodes) with hy | hy
        · exact hnone y hy
        · exact hnone' y hy

theorem admits_of_infer (ht : t.isInteger = true) (he : e.IsPolynomial)
    (hvars : ∀ x, .var x ∈ e.nodes → Γ.paramType? x = some t) {u : Ty} (hu : Γ.infer e = .ok u) :
    Ty.Admits t u := by
  rcases infer_polynomial ht he hvars with h | ⟨h, -⟩
  · cases hu.symm.trans h
    exact .inr rfl
  · cases hu.symm.trans h
    exact .inl rfl

end Scope

/-! ## Values -/

/-- An element whose number is congruent to an integer modulo the number of elements of its type. -/
def Scalar.Represents (v : Scalar) (u : DType) (n : Int) : Prop :=
  v.dtype = u ∧ v.toInt ≡ n [ZMOD (2 ^ u.width : Nat)]

namespace Scalar.Represents

variable {v w : Scalar} {s t u : DType} {m n : Int} {op : ArithOp}

theorem cast (h : v.Represents s n) (hs : s.isInteger = true) (hu : u.isInteger = true)
    (hwidth : u.width ≤ s.width) : (v.cast u).Represents u n := by
  obtain ⟨rfl, hmod⟩ := h
  exact ⟨dtype_cast v u, (toInt_cast_modEq (DType.isFloat_of_isInteger hs) hu).trans
    (modEq_of_width_le hwidth hmod)⟩

theorem neg (h : v.Represents u n) (hu : u.isInteger = true) :
    ∃ r, v.neg = .ok r ∧ r.Represents u (-n) :=
  ⟨_, neg_eq_ofInt hu h.1, dtype_ofInt _ u, (toInt_ofInt_modEq hu _).trans h.2.neg⟩

theorem binary (hop : op.IsRing) (hv : v.Represents u m) (hw : w.Represents u n)
    (hu : u.isInteger = true) :
    ∃ r, v.binary op w = .ok r ∧ r.Represents u (op.onIntegers m n) :=
  ⟨_, binary_eq_ofInt hop.ne_div hu hv.1 hw.1, dtype_ofInt _ u,
    (toInt_ofInt_modEq hu _).trans (hop.onIntegers_modEq hv.2 hw.2)⟩

end Scalar.Represents

namespace Scope

variable {Γ : Scope} {values : List Scalar} {t : DType} {e : Expr}

/-- A polynomial evaluates to an element for its integer. -/
theorem eval_polynomial (ht : t.isInteger = true) (hvalues : values.map Scalar.dtype = Γ.args)
    (he : e.IsPolynomial) (hvars : ∀ x, .var x ∈ e.nodes → Γ.paramType? x = some t) {u : Ty}
    (hu : Γ.infer e = .ok u) :
    ∃ v, Γ.eval values e = .ok v ∧ v.Represents u.dtype (e.number (Γ.number values)) := by
  induction he generalizing u with
  | int n =>
    cases hu
    have hcongr := Scalar.toInt_ofInt_modEq (t := .int64) rfl n
    exact ⟨.int64 n, (eval_of_literal? rfl rfl).2, rfl, hcongr⟩
  | var x =>
    obtain ⟨s, hs, rfl⟩ := infer_var.1 hu
    obtain ⟨i, v, hi, hiv, rfl⟩ := value_of_paramType? hvalues hs
    refine ⟨v, ?_, rfl, ?_⟩
    · exact eval_var hu hi hiv
    · simp [Expr.number, number, hi, hiv, Int.ModEq.refl]
  | @neg x hx ih =>
    have hvars' : ∀ y, .var y ∈ x.nodes → Γ.paramType? y = some t := fun y hy =>
      hvars y (by simp [Expr.nodes, hy])
    obtain ⟨hxu, -⟩ := infer_neg.1 hu
    have hinteger := (admits_of_infer ht hx hvars' hxu).isInteger ht
    obtain ⟨v, hv, hrep⟩ := ih hvars' hxu
    obtain ⟨r, hr, hneg⟩ := (hrep.cast hinteger hinteger (Nat.le_refl _)).neg hinteger
    exact ⟨r, (eval_neg hu (asType_of_eval hxu hv _)).trans hr, hneg⟩
  | @arith op a b hop ha hb iha ihb =>
    have hleft : ∀ y, .var y ∈ a.nodes → Γ.paramType? y = some t := fun y hy =>
      hvars y (by simp [Expr.nodes, hy])
    have hright : ∀ y, .var y ∈ b.nodes → Γ.paramType? y = some t := fun y hy =>
      hvars y (by simp [Expr.nodes, hy])
    obtain ⟨s, s', hs, hs', rfl⟩ := infer_arith.1 hu
    have hadmits := admits_of_infer ht ha hleft hs
    have hadmits' := admits_of_infer ht hb hright hs'
    obtain ⟨v, hv, hrep⟩ := iha hleft hs
    obtain ⟨w, hw, hrep'⟩ := ihb hright hs'
    rw [eval_arith hu (asType_of_eval hs hv _) (asType_of_eval hs' hw _), hop.result_eq]
    obtain ⟨hresult, hwidth, hwidth'⟩ := hadmits.arith ht hadmits'
    have hinteger := hresult.isInteger ht
    exact (hrep.cast (hadmits.isInteger ht) hinteger hwidth).binary hop
      (hrep'.cast (hadmits'.isInteger ht) hinteger hwidth') hinteger

end Scope

/-! ## Loops -/

namespace Definition

variable {d : Definition} {hosts : HostTable} {t : DType}

theorem paramType?_of_mem {x : String} (hx : x ∈ d.params) :
    (d.scope hosts (List.replicate d.nin t)).paramType? x = some t := by
  have hsome : (d.params.findIdx? (· == x)).isSome := by
    rw [List.findIdx?_isSome]
    exact List.any_eq_true.2 ⟨x, hx, by simp⟩
  obtain ⟨i, hi⟩ := Option.isSome_iff_exists.1 hsome
  obtain ⟨hlt, -⟩ := List.findIdx?_eq_some_iff_getElem.1 hi
  have hindex : (d.scope hosts (List.replicate d.nin t)).index? x = some i := hi
  rw [Scope.paramType?, hindex, Option.bind_some]
  exact List.getElem?_replicate.trans (if_pos hlt)

theorem mem_params_of_parse {source : String} {body : Expr} (h : parse source = .ok d)
    (hbody : d.body = .ok body) {x : String} (hx : .var x ∈ body.nodes) : x ∈ d.params := by
  refine (accepted_of_parse h).mem_params body ?_ x hx
  unfold Definition.body at hbody
  split at hbody
  next e houtputs =>
    cases hbody
    simp [houtputs]
  next => cases hbody

end Definition

namespace Loop

variable {d : Definition} {hosts : HostTable} {t : DType} {body : Expr} {source : String}

/--
The loops of a polynomial for integers of one type, be they machine code or boxed, return that type.
Their result is the element whose number is congruent to the polynomial's integer modulo the number
of elements of the type.
-/
theorem invoke_polynomial (hparse : Definition.parse source = .ok d) (registered : hosts.Registered)
    (hbody : d.body = .ok body) (hpolynomial : body.IsPolynomial)
    (hvar : ∃ x, .var x ∈ body.nodes) (ht : t.isInteger = true) :
    ∃ l m, compile d hosts .default (List.replicate d.nin t) none = .ok l ∧
      compile d hosts ⟨false, true⟩ (List.replicate d.nin t) none = .ok m ∧
      l.isBoxed = false ∧ m.isBoxed = true ∧ l.ret = t ∧ m.ret = t ∧
      ∀ values, values.map Scalar.dtype = List.replicate d.nin t → ∃ s,
        l.invoke values = .ok s ∧ m.invoke values = .ok s ∧ s.dtype = t ∧
          s.toInt ≡ body.number ((d.scope hosts (List.replicate d.nin t)).number values)
            [ZMOD (2 ^ t.width : Nat)] := by
  have hvars : ∀ x, .var x ∈ body.nodes →
      (d.scope hosts (List.replicate d.nin t)).paramType? x = some t := fun x hx =>
    Definition.paramType?_of_mem (Definition.mem_params_of_parse hparse hbody hx)
  obtain ⟨x, hx⟩ := hvar
  have hinfer : (d.scope hosts (List.replicate d.nin t)).infer body = .ok (.concrete t) :=
    (Scope.infer_polynomial ht hpolynomial hvars).resolve_right fun h => h.2 x hx
  have hcheck : d.check hosts (List.replicate d.nin t) = .ok (body, .concrete t) :=
    Definition.check_eq_ok.2 ⟨List.length_replicate, hbody, hinfer⟩
  have hmodes := modes_agree registered hbody (hpolynomial.callsNative hosts)
    (List.replicate d.nin t) none
  rcases hmodes with ⟨e, -, he⟩ | ⟨l, m, hl, hm, hnative, hboxed, hret, hagree⟩
  · cases (compile_boxed hcheck).symm.trans he
  · cases (compile_boxed hcheck).symm.trans hm
    refine ⟨l, _, hl, hm, hnative, hboxed, hret, rfl, fun values hvalues => ?_⟩
    obtain ⟨s, hls, hms⟩ := hagree (hpolynomial.noFloatExtremum _) values hvalues
    obtain ⟨v, hv, hvt, hmod⟩ := Scope.eval_polynomial ht hvalues hpolynomial hvars hinfer
    have hself : v.cast t = v := Scalar.cast_of_dtype hvt
    have hcall : BoxedKernel.call ⟨d, hosts, List.replicate d.nin t, t⟩ values = .ok v := by
      rw [BoxedKernel.call_eq hbody hvalues]
      exact (Scope.asType_of_eval hinfer hv t).trans (congrArg Except.ok hself)
    obtain rfl : v = s := by
      rw [invoke_boxed rfl hvalues] at hms
      exact Except.ok.inj (((congrArg (Except.map (·.cast t)) hcall).trans
        (congrArg Except.ok hself)).symm.trans hms)
    exact ⟨v, hls, hms, hvt, hmod⟩

end Loop

/-! ## A polynomial with a negative coefficient -/

def Expr.combination : Expr :=
  .arith .add (.arith .mul (.arith .sub (.int 3) (.int 5)) (.var "a")) (.neg (.var "b"))

def Definition.combination : Definition :=
  ⟨"f", ["a", "b"], [.combination], "f(a, b) = (3 - 5) * a + -b"⟩

theorem Definition.parse_combination : parse "f(a, b) = (3 - 5) * a + -b" = .ok combination := by
  decide +kernel

theorem Expr.isPolynomial_combination : Expr.combination.IsPolynomial :=
  .arith (.inl rfl) (.arith (.inr (.inr rfl)) (.arith (.inr (.inl rfl)) (.int 3) (.int 5)) (.var "a"))
    (.neg (.var "b"))

/-- On bytes, `-2 * 200 - 100` is 12 but for a multiple of 256. -/
theorem Loop.invoke_polynomial_combination :
    Definition.parse "f(a, b) = (3 - 5) * a + -b" = .ok .combination ∧
      HostTable.empty.Registered ∧ Definition.combination.body = .ok .combination ∧
      Expr.combination.IsPolynomial ∧ (∃ x, .var x ∈ Expr.combination.nodes) ∧
      ∃ l, compile .combination .empty .default [.uint8, .uint8] none = .ok l ∧ l.ret = .uint8 ∧
        ∃ s, l.invoke [.ofInt 200 .uint8, .ofInt 100 .uint8] = .ok s ∧
          s.toInt ≡ 12 [ZMOD (2 ^ DType.width .uint8 : Nat)] := by
  have hvar : ∃ x, .var x ∈ Expr.combination.nodes := ⟨"b", by decide⟩
  refine ⟨Definition.parse_combination, .empty, rfl, Expr.isPolynomial_combination, hvar, ?_⟩
  obtain ⟨l, _, hl, -, -, -, hret, -, hvalues⟩ := invoke_polynomial (t := .uint8)
    Definition.parse_combination .empty rfl Expr.isPolynomial_combination hvar rfl
  obtain ⟨s, hs, -, -, hmod⟩ := hvalues [.ofInt 200 .uint8, .ofInt 100 .uint8] rfl
  refine ⟨l, hl, hret, s, hs, hmod.trans ?_⟩
  decide

end Pointwise

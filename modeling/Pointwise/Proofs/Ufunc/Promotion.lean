import Pointwise.Proofs.NDArray.Reachable
import Pointwise.Proofs.Ufunc.Elements
import Pointwise.Proofs.Ufunc.Matching

/-!
# Promotion of operands

A loop that serves other types than its own is run behind an adapter that converts the operands. It
computes what it would on operands that were converted before the call.
-/

namespace Pointwise

open Broadcast
open NDArray (inBounds)

namespace Operand

/-- The operand with its elements converted to a type. -/
def convert (t : DType) : Operand → Operand
  | array a => array (a.astype t)
  | op => scalar (op.value.cast t)

@[simp] theorem shape_convert (t : DType) (op : Operand) : (op.convert t).shape = op.shape := by
  cases op with
  | array a => exact a.shape_astype t
  | scalar s => rfl
  | literal l => rfl

@[simp] theorem dtype_convert (t : DType) (op : Operand) : (op.convert t).dtype = t := by
  cases op with
  | array a => exact a.dtype_astype t
  | scalar s => exact Scalar.dtype_cast _ t
  | literal l => exact Scalar.dtype_cast _ t

theorem valueAt_convert {t : DType} {index : List Nat} {op : Operand}
    (h : inBounds op.shape (sourceIndex index op.shape) = true) :
    valueAt index (op.convert t) = (valueAt index op).cast t := by
  cases op with
  | array a =>
    show (a.astype t).element (sourceIndex index (a.astype t).shape) = _
    rw [a.shape_astype]
    exact NDArray.element_astype h
  | scalar s => rfl
  | literal l => rfl

/-- The operands converted to the types of a loop. -/
def convertAll (ts : List DType) (ops : List Operand) : List Operand :=
  List.zipWith convert ts ops

section

variable {ts : List DType} {ops : List Operand}

theorem shapes_convertAll (h : ts.length = ops.length) :
    (convertAll ts ops).map shape = ops.map shape :=
  List.ext_getElem (by simp [convertAll, h]) (by simp [convertAll])

theorem dtypes_convertAll (h : ts.length = ops.length) : (convertAll ts ops).map dtype = ts :=
  List.ext_getElem (by simp [convertAll, h]) (by simp [convertAll])

theorem values_convertAll {index : List Nat}
    (h : ∀ op ∈ ops, inBounds op.shape (sourceIndex index op.shape) = true) :
    (convertAll ts ops).map (valueAt index) =
      List.zipWith Scalar.cast (ops.map (valueAt index)) ts := by
  unfold convertAll
  induction ops generalizing ts with
  | nil => simp
  | cons op ops ih =>
    obtain ⟨hop, hops⟩ := List.forall_mem_cons.1 h
    cases ts with
    | nil => rfl
    | cons t ts =>
      rw [List.zipWith_cons_cons, List.map_cons, List.map_cons, List.zipWith_cons_cons, ih hops,
        valueAt_convert hop]

end

end Operand

/-! ## Adapters -/

theorem Adapter.call_convert {ts : List DType} {t : DType} {l : Loop} {values : List Scalar}
    (hts : values.map Scalar.dtype = ts) (hlen : l.args.length = ts.length) :
    Adapter.call ⟨l.args, t, l⟩ (List.zipWith Scalar.cast values l.args) =
      Adapter.call ⟨ts, t, l⟩ values := by
  have hvalues : values.length = ts.length := by rw [← hts, List.length_map]
  have hself : List.zipWith Scalar.cast (List.zipWith Scalar.cast values l.args) l.args =
      List.zipWith Scalar.cast values l.args :=
    Scalar.zipWith_cast_self <| List.ext_getElem (by simp [hvalues, hlen]) (by simp)
  have hconvert : Adapter.convert ⟨l.args, t, l⟩ (List.zipWith Scalar.cast values l.args) =
      Adapter.convert ⟨ts, t, l⟩ values := by
    unfold convert
    dsimp only
    rw [hself, hself, Scalar.zipWith_cast_self hts]
  unfold call
  rw [hconvert, if_neg (by simp [hvalues, hlen]), if_neg (by simp [hvalues])]

namespace Ufunc

open Stateful Operand

variable {u : Ufunc} {l : Loop} {args : List Operand}

/--
A call on operands of other types than the loop that serves them gives what the call on the
converted operands gives, or fails in the same way, and no call changes the loops of a frozen
function.
-/
theorem call_eq_call_converted (hu : Reachable u) (hfrozen : u.frozen = true)
    (hlen : args.length = u.nin) (hl : u.find? (args.map Operand.dtype) = some l) :
    answer (call args []) u = answer (call (convertAll l.args args) []) u ∧
      (after (call args []) u).table = u.table ∧
      (after (call (convertAll l.args args) []) u).table = u.table := by
  have hcoherent := hu.coherent
  obtain ⟨hhas, hargs⟩ := hcoherent.find? hl
  rw [List.length_map] at hargs
  have hdtypes := dtypes_convertAll hargs
  have hshapes := shapes_convertAll hargs
  have hconverted : (convertAll l.args args).length = u.nin := by
    rw [← hlen, ← hargs, ← congrArg List.length hdtypes, List.length_map]
  have hfound : u.find? ((convertAll l.args args).map Operand.dtype) = some l := by
    rw [hdtypes]
    exact find?_of_get? hhas
  have htable (ops : List Operand) : (after (call ops []) u).table = u.table := by
    have hdescends := (keeps_descends u (.call ops [])).after ⟨hu.listed, .refl u⟩
    have hafter : after (perform (.call ops [])) u = after (call ops []) u := after_map _ _ _
    rw [hafter] at hdescends
    exact (hdescends.kept.frozen hfrozen).2
  refine ⟨?_, htable args, htable _⟩
  rw [(call_of_serves hcoherent hlen (.found hl)).1,
    (call_of_serves hcoherent hconverted (.found hfound)).1, hdtypes]
  refine (runCall_congr hshapes fun shape index hjoin hindex => ?_).symm
  have hsource : ∀ op ∈ args, inBounds op.shape (sourceIndex index op.shape) = true := by
    intro op hop
    have hmem : op.shape ∈ args.map Operand.shape := List.mem_map_of_mem hop
    exact inBounds_sourceIndex (hjoin.length_le _ hmem) (hjoin.stretches _ hmem) hindex
  rw [values_convertAll hsource]
  exact Adapter.call_convert (by simp) (by rw [List.length_map, hargs])

/-- An array of 16-bit integers that is not row-major, and a truth value. -/
def promotedArgs : List Operand := [.array NDArray.threeByTwo.transpose, .literal (.bool true)]

theorem call_eq_call_converted_twoLoops :
    Reachable twoLoops ∧ twoLoops.frozen = true ∧ promotedArgs.length = twoLoops.nin ∧
      (∃ r, answer (call promotedArgs []) twoLoops = .ok r) ∧
      answer (call promotedArgs []) twoLoops =
        answer (call (convertAll [.int32, .int32] promotedArgs) []) twoLoops := by
  have hfrozen : twoLoops.frozen = true := by decide +kernel
  have hargs : (twoLoops.find? [.int16, .bool]).map Loop.args = some [.int32, .int32] := by
    decide +kernel
  obtain ⟨l, hl, hlargs⟩ := Option.map_eq_some_iff.1 hargs
  have hlength : promotedArgs.length = twoLoops.nin := rfl
  have hcall := (call_eq_call_converted reachable_twoLoops hfrozen hlength hl).1
  rw [hlargs] at hcall
  exact ⟨reachable_twoLoops, hfrozen, rfl, by decide +kernel, hcall⟩

end Ufunc

end Pointwise

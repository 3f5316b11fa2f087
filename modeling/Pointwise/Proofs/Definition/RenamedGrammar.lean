import Mathlib.Data.List.Chain
import Pointwise.Proofs.Definition.Grammar
import Pointwise.Proofs.Definition.RenamedText
import Pointwise.Proofs.Definition.RenamedTree

/-!
# Derivations with other names

Tokens with other names are derived from the same symbols. No number is followed by a name in them,
so that they can be cut out of a text with other names.
-/

namespace Pointwise

namespace Token

/-- Neither part of a number or a name, nor the parenthesis of a call. -/
def Separates (t : Token) : Prop := isIdent t = false ∧ isNumber t = false ∧ t ≠ .leftParen

theorem separates_comma : Separates .comma := ⟨rfl, rfl, nofun⟩

theorem separates_rightParen : Separates .rightParen := ⟨rfl, rfl, nofun⟩

theorem separates_eof : Separates .eof := ⟨rfl, rfl, nofun⟩

variable {σ : String → String} {t : Token} {w w' : List Token}

theorem renameTokens_append (h : w'.head? ≠ some .leftParen) :
    renameTokens σ (w ++ w') = renameTokens σ w ++ renameTokens σ w' := by
  induction w with
  | nil => rfl
  | cons t w ih =>
    cases t with
    | ident x =>
      rw [List.cons_append, renameTokens_ident, renameTokens_ident, ih, List.cons_append]
      cases w with
      | nil => simp [h]
      | cons => rfl
    | _ => simp only [List.cons_append, renameTokens, ih]

theorem renameTokens_between (ht : t.Separates) :
    renameTokens σ (w ++ t :: w') = renameTokens σ w ++ t :: renameTokens σ w' := by
  rw [renameTokens_append (by simpa using ht.2.2), renameTokens_cons ht.1]

theorem Apart.cons (h : Apart w) (ht : isNumber t = false) : Apart (t :: w) :=
  List.isChain_cons.2 ⟨by simp [ht], h⟩

theorem Apart.between (hw : Apart w) (hw' : Apart w') (ht : t.Separates) :
    Apart (w ++ t :: w') := by
  refine List.isChain_append.2 ⟨hw, hw'.cons ht.2.1, ?_⟩
  simp [ht.1]

end Token

namespace Grammar

open Token

variable {α β : Type} {σ : String → String} {w : List Token}

theorem Level.separates {l : Level} {t : Token} {build : Expr → Expr → Expr}
    (h : l.operator? t = some build) : t.Separates := by
  unfold Level.operator? at h
  split at h <;> first | exact ⟨rfl, rfl, nofun⟩ | cases h

theorem Level.reword_build {l : Level} {t : Token} {build : Expr → Expr → Expr}
    (h : l.operator? t = some build) (a b : Expr) :
    Expr.reword σ (build a b) = build (Expr.reword σ a) (Expr.reword σ b) := by
  unfold Level.operator? at h
  split at h <;> cases h <;> rfl

/-! ## Derivations -/

section

variable {item : List Token → α → Prop} {item' : List Token → β → Prop} {f : α → β} {xs : List α}

theorem Commas.rename (hitem : ∀ w x, item w x → item' (renameTokens σ w) (f x))
    (h : Commas item w xs) : Commas item' (renameTokens σ w) (xs.map f) := by
  induction h with
  | one hx => exact .one (hitem _ _ hx)
  | more hx _ ih =>
    rw [renameTokens_between separates_comma]
    exact .more (hitem _ _ hx) ih

theorem Listed.rename (hitem : ∀ w x, item w x → item' (renameTokens σ w) (f x))
    (h : Listed item w xs) : Listed item' (renameTokens σ w) (xs.map f) := by
  cases h with
  | none => exact .none
  | some h => exact .some (h.rename hitem)

theorem Commas.apart (hitem : ∀ w x, item w x → Apart w) (h : Commas item w xs) : Apart w := by
  induction h with
  | one hx => exact hitem _ _ hx
  | more hx _ ih => exact (hitem _ _ hx).between ih separates_comma

theorem Listed.apart (hitem : ∀ w x, item w x → Apart w) (h : Listed item w xs) : Apart w := by
  cases h with
  | none => exact List.isChain_nil
  | some h => exact h.apart hitem

end

theorem derives_named (x : String) : Derives .primary [.ident x] (.named x) := by
  rcases Expr.named_cases x with ⟨b, rfl, hb⟩ | ⟨htrue, hfalse, hx⟩
  · rw [hb]
    cases b with
    | true => exact .true
    | false => exact .false
  · rw [hx]
    exact .var htrue hfalse

theorem Makes.reword {name : String} {args : List Expr} {e : Expr} (h : Makes name args e) :
    Makes name (args.map (Expr.reword σ)) (Expr.reword σ e) := by
  cases h with
  | cond c a b => exact .cond _ _ _
  | max a b => exact .max _ _
  | min a b => exact .min _ _
  | call hif hbuiltin =>
    rw [Expr.reword, Expr.subst, Expr.substAll_eq_map]
    exact .call hif (by simpa using hbuiltin)

theorem Derives.rename {s : Symbol} {e : Expr} (h : Derives s w e) :
    Derives s (renameTokens σ w) (Expr.reword σ e) := by
  -- By induction on the derivation, along with those of the arguments inside it.
  refine @Derives.rec (fun s w e _ => Derives s (renameTokens σ w) (Expr.reword σ e))
    (fun w args _ => Listed (Derives (.chain .or)) (renameTokens σ w) (args.map (Expr.reword σ)))
    (fun w args _ => Commas (Derives (.chain .or)) (renameTokens σ w) (args.map (Expr.reword σ)))
    ?operand ?operator ?neg ?not ?primary ?int ?float ?parens ?true ?false ?var ?call ?none ?some
    ?one ?more s w e h
  case operand => exact fun _ => .operand
  case operator =>
    intro l w w' a b t build _ hl _ ha hb
    rw [renameTokens_between (Level.separates hl), Level.reword_build hl]
    exact .operator ha hl hb
  case neg => exact fun _ => .neg
  case not => exact fun _ => .not
  case primary => exact fun _ => .primary
  case int => exact .int
  case float => exact .float
  case parens =>
    intro w e _ ih
    rw [List.cons_append, renameTokens_cons rfl, renameTokens_between separates_rightParen]
    exact .parens ih
  case true => exact derives_named _
  case false => exact derives_named _
  case var => exact fun _ _ => derives_named _
  case call =>
    intro name w args e htrue hfalse _ he hargs
    rw [List.cons_append, List.cons_append, renameTokens, renameTokens_between separates_rightParen]
    exact .call htrue hfalse hargs he.reword
  case none => exact .none
  case some => exact fun _ => .some
  case one => exact fun _ => .one
  case more =>
    intro w w' e es _ _ he hes
    rw [renameTokens_between separates_comma]
    exact .more he hes

theorem Derives.apart {s : Symbol} {e : Expr} (h : Derives s w e) : Apart w := by
  refine @Derives.rec (fun _ w _ _ => Apart w) (fun w _ _ => Apart w) (fun w _ _ => Apart w)
    ?operand ?operator ?neg ?not ?primary ?int ?float ?parens ?true ?false ?var ?call ?none ?some
    ?one ?more s w e h
  case operand => exact fun _ => id
  case operator => exact fun _ hl _ ha hb => ha.between hb (Level.separates hl)
  case neg => exact fun _ h => h.cons rfl
  case not => exact fun _ h => h.cons rfl
  case primary => exact fun _ => id
  case int => exact fun n => List.isChain_singleton _
  case float => exact fun pattern => List.isChain_singleton _
  case parens => exact fun _ h => (h.between List.isChain_nil separates_rightParen).cons rfl
  case true => exact List.isChain_singleton _
  case false => exact List.isChain_singleton _
  case var => exact fun _ _ => List.isChain_singleton _
  case call =>
    exact fun _ _ _ _ h => ((h.between List.isChain_nil separates_rightParen).cons rfl).cons rfl
  case none => exact List.isChain_nil
  case some => exact fun _ => id
  case one => exact fun _ => id
  case more => exact fun _ _ he hes => he.between hes separates_comma

/-! ## Definitions -/

theorem IsDefinition.rename {p : Parser.Parsed} (h : IsDefinition w p) :
    IsDefinition (renameTokens σ w)
      ⟨p.name, p.params.map σ, p.outputs.map (Expr.reword σ)⟩ := by
  cases h with
  | @intro name v v' params outputs hparams houtputs =>
    have hrename : renameTokens σ
          (.ident name :: .leftParen :: v ++ .rightParen :: .assign :: v' ++ [.eof]) =
        .ident name :: .leftParen :: renameTokens σ v ++
          .rightParen :: .assign :: renameTokens σ v' ++ [.eof] := by
      rw [renameTokens_between separates_eof, renameTokens_between separates_rightParen,
        renameTokens_cons (show isIdent .assign = false from rfl)]
      rfl
    rw [hrename]
    refine .intro (hparams.rename ?_) (houtputs.rename fun _ _ => Derives.rename)
    rintro _ x rfl
    rfl

theorem IsDefinition.apart {p : Parser.Parsed} (h : IsDefinition w p) : Apart w := by
  cases h with
  | @intro name v v' params outputs hparams houtputs =>
    have hv : Apart v := by
      refine hparams.apart ?_
      rintro _ x rfl
      exact List.isChain_singleton _
    have hv' : Apart v' := houtputs.apart fun _ _ => Derives.apart
    have hbody : Apart (.assign :: v') := hv'.cons rfl
    have hhead : Apart (.ident name :: .leftParen :: v) := (hv.cons rfl).cons rfl
    exact (hhead.between hbody separates_rightParen).between List.isChain_nil separates_eof

end Grammar

end Pointwise

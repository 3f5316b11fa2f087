import Mathlib.Data.List.Forall2
import Pointwise.Proofs.Definition.Blanks
import Pointwise.Signature.Reader

/-!
# Blanks in a signature

Which blanks may be put into the text of a signature, and what they leave as it is: the arrow, the
commas and the trimmed pieces between them.
-/

namespace Pointwise

/-! ## Blanks around a piece of text -/

namespace Text

/-- The second text is the first one with blanks around it. -/
def Around (cs ds : List Char) : Prop :=
  ∃ before behind, (∀ b ∈ before, isBlank b = true) ∧ (∀ b ∈ behind, isBlank b = true) ∧
    ds = before ++ (cs ++ behind)

/-- The second text is the first one with blanks put into it. -/
inductive Spread : List Char → List Char → Prop where
  | nil : Spread [] []
  | keep (c : Char) {cs ds : List Char} : Spread cs ds → Spread (c :: cs) (c :: ds)
  | blank {b : Char} {cs ds : List Char} : isBlank b = true → Spread cs ds → Spread cs (b :: ds)

variable {c d : Char} {cs ds es before behind : List Char}

theorem Around.refl (cs : List Char) : Around cs cs :=
  ⟨[], [], nofun, nofun, (List.append_nil cs).symm⟩

theorem dropWhile_append_cons (hc : isBlank c = false) (before cs : List Char) :
    (before ++ c :: cs).dropWhile isBlank = before.dropWhile isBlank ++ c :: cs := by
  rw [List.dropWhile_append]
  split
  next h => rw [List.isEmpty_iff.1 h, List.dropWhile_cons_of_neg (by simp [hc]), List.nil_append]
  next => rfl

theorem rdropWhile_append_cons (hc : isBlank c = false) (cs behind : List Char) :
    (cs ++ c :: behind).rdropWhile isBlank = cs ++ c :: behind.rdropWhile isBlank := by
  simp [List.rdropWhile, dropWhile_append_cons hc]

theorem trim_between (hc : isBlank c = false) (hd : isBlank d = false)
    (before cs behind : List Char) : trim (before ++ c :: (cs ++ d :: behind)) =
      before.dropWhile isBlank ++ c :: (cs ++ d :: behind.rdropWhile isBlank) := by
  rw [trim_eq, dropWhile_append_cons hc, ← List.cons_append, ← List.append_assoc,
    rdropWhile_append_cons hd, List.append_assoc, List.cons_append]

theorem dropWhile_of_blank (h : ∀ b ∈ cs, isBlank b = true) : cs.dropWhile isBlank = [] :=
  List.dropWhile_eq_nil_iff.2 h

theorem rdropWhile_of_blank (h : ∀ b ∈ cs, isBlank b = true) : cs.rdropWhile isBlank = [] :=
  List.rdropWhile_eq_nil_iff.2 h

theorem rdropWhile_append_of_blank (h : ∀ b ∈ behind, isBlank b = true) (cs : List Char) :
    (cs ++ behind).rdropWhile isBlank = cs.rdropWhile isBlank := by
  rw [List.rdropWhile, List.reverse_append,
    List.dropWhile_append_of_pos fun b hb => h b (List.mem_reverse.1 hb), List.rdropWhile]

theorem trim_eq_nil_iff : trim cs = [] ↔ ∀ b ∈ cs, isBlank b = true := by
  constructor
  · intro h
    obtain ⟨before, behind, hcs, hbefore, hbehind⟩ := exists_trim cs
    rw [h, List.nil_append] at hcs
    rw [hcs]
    exact List.forall_mem_append.2 ⟨hbefore, hbehind⟩
  · intro h
    rw [trim_eq, dropWhile_of_blank h]
    rfl

theorem trim_around (h : Around cs ds) : trim ds = trim cs := by
  obtain ⟨before, behind, hbefore, hbehind, rfl⟩ := h
  rw [trim_eq, List.dropWhile_append_of_pos hbefore, List.dropWhile_append, trim_eq]
  split
  next h =>
    rw [dropWhile_of_blank hbehind, List.isEmpty_iff.1 h]
  next => exact rdropWhile_append_of_blank hbehind _

theorem trim_dropWhile (cs : List Char) : trim (cs.dropWhile isBlank) = trim cs := by
  rw [trim_eq, List.dropWhile_idempotent, ← trim_eq]

theorem trim_rdropWhile (cs : List Char) : trim (cs.rdropWhile isBlank) = trim cs := by
  have h : Around (cs.rdropWhile isBlank) cs :=
    ⟨[], cs.rtakeWhile isBlank, nofun, fun b hb => List.mem_rtakeWhile_imp hb,
      List.rdropWhile_append_rtakeWhile.symm⟩
  exact (trim_around h).symm

theorem trim_of_not_blank (h : ∀ c ∈ cs, isBlank c = false) : trim cs = cs := by
  have hkeep : ∀ {l : List Char}, (∀ c ∈ l, isBlank c = false) → l.dropWhile isBlank = l := by
    intro l hl
    cases l with
    | nil => rfl
    | cons c l => exact List.dropWhile_cons_of_neg (by simp [hl c (.head _)])
  rw [trim, hkeep h, hkeep fun c hc => h c (List.mem_reverse.1 hc), List.reverse_reverse]

theorem trim_within (cs : List Char) : trim cs <:+: cs := by
  obtain ⟨before, behind, hcs, -, -⟩ := exists_trim cs
  exact ⟨before, behind, by rw [List.append_assoc, ← hcs]⟩

theorem around_trim (cs : List Char) : Around (trim cs) cs := by
  obtain ⟨before, behind, hcs, hbefore, hbehind⟩ := exists_trim cs
  exact ⟨before, behind, hbefore, hbehind, hcs⟩

theorem Around.mem_iff (h : Around cs ds) (hc : isBlank c = false) : c ∈ ds ↔ c ∈ cs := by
  obtain ⟨before, behind, hbefore, hbehind, rfl⟩ := h
  have hout : ∀ {bs : List Char}, (∀ b ∈ bs, isBlank b = true) → c ∉ bs := by
    intro bs hbs hmem
    rw [hbs c hmem] at hc
    cases hc
  simp [hout hbefore, hout hbehind]

/-! ## Blanks anywhere -/

theorem Spread.refl (cs : List Char) : Spread cs cs := by
  induction cs with
  | nil => exact .nil
  | cons c cs ih => exact .keep c ih

theorem Spread.append {cs' ds' : List Char} (h : Spread cs ds) (h' : Spread cs' ds') :
    Spread (cs ++ cs') (ds ++ ds') := by
  induction h with
  | nil => exact h'
  | keep c _ ih => exact .keep c ih
  | blank hb _ ih => exact .blank hb ih

theorem spread_of_blank (h : ∀ b ∈ cs, isBlank b = true) : Spread [] cs := by
  induction cs with
  | nil => exact .nil
  | cons c cs ih =>
    rw [List.forall_mem_cons] at h
    exact .blank h.1 (ih h.2)

theorem Around.spread (h : Around cs ds) : Spread cs ds := by
  obtain ⟨before, behind, hbefore, hbehind, rfl⟩ := h
  have hcs := (Spread.refl cs).append (spread_of_blank hbehind)
  rw [List.append_nil] at hcs
  exact (spread_of_blank hbefore).append hcs

theorem Spread.blank_iff (h : Spread cs ds) :
    (∀ b ∈ ds, isBlank b = true) ↔ ∀ b ∈ cs, isBlank b = true := by
  induction h with
  | nil => rfl
  | keep c _ ih => rw [List.forall_mem_cons, List.forall_mem_cons, ih]
  | blank hb _ ih => rw [List.forall_mem_cons, ih, and_iff_right hb]

theorem Spread.head (h : Spread cs (d :: ds)) (hd : isBlank d = false) : cs.head? = some d := by
  cases h with
  | keep => rfl
  | blank hb => rw [hb] at hd; cases hd

end Text

namespace Signature

open Text (isBlank Around Spread)

variable {cs ds before after : List Char} {c : Char}

/-! ## The arrow -/

theorem splitArrow?_cons (h : c = '-' → cs.head? ≠ some '>') :
    splitArrow? (c :: cs) = (splitArrow? cs).map fun (before, after) => (c :: before, after) := by
  rw [splitArrow?]
  rintro r rfl rfl
  exact h rfl rfl

theorem splitArrow?_eq_some : splitArrow? cs = some (before, after) ↔
    cs = before ++ '-' :: '>' :: after ∧ splitArrow? before = none := by
  constructor
  · intro h
    fun_induction splitArrow? cs generalizing before with
    | case1 => cases h
    | case2 r =>
      cases h
      exact ⟨rfl, rfl⟩
    | case3 c r hne ih =>
      obtain ⟨⟨before, _⟩, hr, heq⟩ := Option.map_eq_some_iff.1 h
      cases heq
      obtain ⟨rfl, hnone⟩ := ih hr
      refine ⟨rfl, ?_⟩
      rw [splitArrow?_cons, hnone, Option.map_none]
      rintro rfl hhead
      obtain ⟨before, rfl⟩ := List.head?_eq_some_iff.1 hhead
      exact hne _ rfl rfl
  · rintro ⟨rfl, h⟩
    fun_induction splitArrow? before with
    | case1 => rfl
    | case2 r => cases h
    | case3 c r hne ih =>
      rw [List.cons_append, splitArrow?_cons, ih (Option.map_eq_none_iff.1 h), Option.map_some]
      rintro rfl hhead
      cases r with
      | nil => cases hhead
      | cons d r =>
        cases hhead
        exact hne _ rfl rfl

theorem splitArrow?_eq_none : splitArrow? cs = none ↔ ¬ ['-', '>'] <:+: cs := by
  fun_induction splitArrow? cs with
  | case1 => simp
  | case2 r => simp [List.infix_cons_iff]
  | case3 c r hne ih =>
    rw [Option.map_eq_none_iff, ih, List.infix_cons_iff, not_or, and_iff_right]
    rintro ⟨r', h⟩
    cases h
    exact hne _ rfl rfl

theorem splitArrow?_within (h : ds <:+: cs) (hcs : splitArrow? cs = none) :
    splitArrow? ds = none :=
  splitArrow?_eq_none.2 fun hds => splitArrow?_eq_none.1 hcs (hds.trans h)

theorem splitArrow?_of_not_mem (h : '-' ∉ cs) : splitArrow? cs = none :=
  splitArrow?_eq_none.2 fun hwithin => h (hwithin.subset (.head _))

theorem arrow_of_spread (h : Spread cs ds) (hds : ['-', '>'] <:+: ds) :
    ['-', '>'] <:+: cs := by
  induction h with
  | nil => exact hds
  | keep c h ih =>
    rcases List.infix_cons_iff.1 hds with ⟨r, heq⟩ | hwithin
    · cases heq
      obtain ⟨cs, rfl⟩ := List.head?_eq_some_iff.1 (h.head (by decide))
      exact ⟨[], cs, rfl⟩
    · exact List.infix_cons_iff.2 (.inr (ih hwithin))
  | blank hb _ ih =>
    rcases List.infix_cons_iff.1 hds with ⟨r, heq⟩ | hwithin
    · cases heq
      cases hb
    · exact ih hwithin

theorem splitArrow?_spread (h : Spread cs ds) (hcs : splitArrow? cs = none) :
    splitArrow? ds = none :=
  splitArrow?_eq_none.2 fun hds => splitArrow?_eq_none.1 hcs (arrow_of_spread h hds)

/-! ## The commas -/

theorem splitCommas_eq (cs : List Char) : splitCommas cs = cs.splitOn ',' := by
  fun_induction splitCommas cs with
  | case1 => rfl
  | case2 r ih => rw [List.splitOn_cons_eq_if_modifyHead, if_pos (beq_self_eq_true _), ih]
  | case3 c r hne h ih =>
    rw [h] at ih
    exact (List.splitOn_ne_nil _ _ ih.symm).elim
  | case4 c r hne part parts h ih =>
    rw [List.splitOn_cons_eq_if_modifyHead, if_neg (by simpa using hne), ← ih, h,
      List.modifyHead_cons]

theorem splitCommas_ne_nil (cs : List Char) : splitCommas cs ≠ [] := by
  rw [splitCommas_eq]
  exact List.splitOn_ne_nil _ _

theorem not_mem_splitCommas (cs : List Char) : ∀ part ∈ splitCommas cs, ',' ∉ part := by
  fun_induction splitCommas cs with
  | case1 => simp
  | case2 r ih => simpa using ih
  | case3 c r hne h ih => simpa using Ne.symm hne
  | case4 c r hne part parts h ih =>
    rw [h, List.forall_mem_cons] at ih
    rw [List.forall_mem_cons, List.mem_cons, not_or]
    exact ⟨⟨Ne.symm hne, ih.1⟩, ih.2⟩

theorem intercalate_splitCommas (cs : List Char) : [','].intercalate (splitCommas cs) = cs := by
  rw [splitCommas_eq, List.intercalate_splitOn]

theorem splitCommas_intercalate {parts : List (List Char)} (hne : parts ≠ [])
    (hcommas : ∀ part ∈ parts, ',' ∉ part) : splitCommas ([','].intercalate parts) = parts := by
  rw [splitCommas_eq, List.splitOn_intercalate _ hcommas hne]

theorem not_mem_around {parts parts' : List (List Char)} (h : List.Forall₂ Around parts parts')
    (hc : isBlank c = false) (hparts : ∀ part ∈ parts, c ∉ part) : ∀ part ∈ parts', c ∉ part := by
  induction h with
  | nil => exact nofun
  | cons hpart _ ih =>
    rw [List.forall_mem_cons] at hparts ⊢
    exact ⟨mt (hpart.mem_iff hc).1 hparts.1, ih hparts.2⟩

theorem not_mem_intercalate {c d : Char} (hc : c ≠ d) {parts : List (List Char)}
    (h : ∀ part ∈ parts, c ∉ part) : c ∉ [d].intercalate parts := by
  induction parts with
  | nil => exact List.not_mem_nil
  | cons part parts ih =>
    rw [List.forall_mem_cons] at h
    cases parts with
    | nil => simpa using h.1
    | cons next parts =>
      rw [List.intercalate_cons_cons, List.mem_append, List.mem_append, List.mem_singleton]
      rintro ((hpart | heq) | hrest)
      · exact h.1 hpart
      · exact hc heq
      · exact ih h.2 hrest

theorem mem_intercalate_head {c d : Char} {part : List Char} (h : c ∈ part)
    (parts : List (List Char)) : c ∈ [d].intercalate (part :: parts) := by
  cases parts with
  | nil => simpa using h
  | cons next parts => simp [List.intercalate_cons_cons, h]

theorem intercalate_spread {parts parts' : List (List Char)}
    (h : List.Forall₂ Around parts parts') :
    Spread ([','].intercalate parts) ([','].intercalate parts') := by
  induction h with
  | nil => exact .nil
  | cons hpart hparts ih =>
    cases hparts with
    | nil => simpa using hpart.spread
    | cons hnext hrest =>
      rw [List.intercalate_cons_cons, List.intercalate_cons_cons]
      exact (hpart.spread.append (.refl _)).append ih

end Signature

end Pointwise

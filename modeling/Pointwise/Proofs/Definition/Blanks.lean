import Mathlib.Data.List.DropRight
import Pointwise.Definition.Lexer
import Pointwise.Proofs.Outcome

/-!
# Blanks

A blank is no character of any token, so that it ends the number, the name or the symbol before it.
-/

namespace Pointwise

open Text (isBlank isLetter isNumeral)

namespace Text

/-- Whether no code point lies in ranges of both lists. -/
def disjoint (ranges others : List (Nat × Nat)) : Bool :=
  ranges.all fun (low, high) => others.all fun (low', high') => high < low' || high' < low

theorem inRanges_eq_false_of_disjoint {ranges others : List (Nat × Nat)} {c : Char}
    (h : disjoint ranges others = true) (hc : inRanges ranges c = true) :
    inRanges others c = false := by
  obtain ⟨⟨low, high⟩, hmem, hin⟩ := List.any_eq_true.1 hc
  rw [inRanges, List.any_eq_false]
  rintro ⟨low', high'⟩ hmem'
  have hapart := List.all_eq_true.1 (List.all_eq_true.1 h _ hmem) _ hmem'
  simp only [Bool.and_eq_true, Bool.or_eq_true, decide_eq_true_eq] at hin hapart ⊢
  omega

theorem not_isLetter_of_isBlank {c : Char} (h : isBlank c = true) : isLetter c = false :=
  inRanges_eq_false_of_disjoint
    (show disjoint blankRanges letterRanges = true by decide +kernel) h

theorem not_isNumeral_of_isBlank {c : Char} (h : isBlank c = true) : isNumeral c = false :=
  inRanges_eq_false_of_disjoint
    (show disjoint blankRanges numeralRanges = true by decide +kernel) h

theorem not_isDigit_of_isBlank {c : Char} (h : isBlank c = true) : Decimal.isDigit c = false := by
  have hout : inRanges [(0x30, 0x39)] c = false :=
    inRanges_eq_false_of_disjoint (by decide) h
  rw [← hout]
  simp [Decimal.isDigit, inRanges, Char.le_def, UInt32.le_iff_toNat_le]

theorem ne_of_isBlank {c d : Char} (h : isBlank c = true) (hd : isBlank d = false) : c ≠ d := by
  rintro rfl
  rw [h] at hd
  cases hd

theorem span_append {p : Char → Bool} {run rest : List Char} (hrun : ∀ c ∈ run, p c = true)
    (hrest : ∀ c, rest.head? = some c → p c = false) :
    (run ++ rest).takeWhile p = run ∧ (run ++ rest).dropWhile p = rest := by
  rw [List.takeWhile_append_of_pos hrun, List.dropWhile_append_of_pos hrun]
  cases rest with
  | nil => simp
  | cons c rest => simp [hrest c rfl]

theorem trim_eq (cs : List Char) : trim cs = (cs.dropWhile isBlank).rdropWhile isBlank := rfl

theorem exists_trim (cs : List Char) : ∃ before after, cs = before ++ (trim cs ++ after) ∧
    (∀ b ∈ before, isBlank b = true) ∧ ∀ b ∈ after, isBlank b = true := by
  refine ⟨cs.takeWhile isBlank, (cs.dropWhile isBlank).rtakeWhile isBlank, ?_, ?_, ?_⟩
  · rw [trim_eq, List.rdropWhile_append_rtakeWhile, List.takeWhile_append_dropWhile]
  · intro b hb
    exact List.mem_takeWhile_imp hb
  · intro b hb
    exact List.mem_rtakeWhile_imp hb

theorem trim_trim (cs : List Char) : trim (trim cs) = trim cs := by
  have hprefix : trim cs <+: cs.dropWhile isBlank := List.rdropWhile_prefix _ _
  have hdrop : (trim cs).dropWhile isBlank = trim cs := by
    rw [List.dropWhile_eq_self_iff]
    intro hpos
    rw [List.IsPrefix.getElem hprefix]
    exact List.dropWhile_get_zero_not isBlank cs (hpos.trans_le hprefix.length_le)
  rw [trim_eq, hdrop, trim_eq, List.rdropWhile_idempotent]

end Text

namespace Token

theorem step?_of_isBlank (s : NumberState) {b : Char} (h : isBlank b = true) :
    s.step? b = none := by
  have hne : ∀ d, isBlank d = false → b ≠ d := fun d => Text.ne_of_isBlank h
  unfold NumberState.step?
  simp [Text.not_isDigit_of_isBlank h, hne '.' (by decide), hne 'e' (by decide),
    hne 'E' (by decide), hne '+' (by decide), hne '-' (by decide)]

theorem not_continuesName_of_isBlank {b : Char} (h : isBlank b = true) :
    continuesName b = false := by
  have hne : b ≠ '_' := Text.ne_of_isBlank h (by decide)
  simp [continuesName, Text.not_isLetter_of_isBlank h, Text.not_isNumeral_of_isBlank h, hne]

theorem ofPair?_of_isBlank (c : Char) {b : Char} (h : isBlank b = true) : ofPair? c b = none := by
  have hne : ∀ d, isBlank d = false → b ≠ d := fun d => Text.ne_of_isBlank h
  unfold ofPair?
  simp [hne '=' (by decide), hne '&' (by decide), hne '|' (by decide)]

end Token

end Pointwise

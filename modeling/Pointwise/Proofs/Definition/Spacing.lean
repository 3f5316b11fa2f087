import Mathlib.Data.List.Forall2
import Pointwise.Proofs.Definition.Accepted
import Pointwise.Proofs.Definition.Words

/-!
# Words and the blanks between them

The tokens of a text spell all of it but the blanks. More blanks between the words give the same
tokens, and so the same definition.
-/

namespace Pointwise

namespace Token

open Text (isBlank)

/-- The same tokens, which may stand elsewhere. -/
def SameTokens (ts us : List PlacedToken) : Prop := ts.map Prod.fst = us.map Prod.fst

/-- The same words in the same order, with more blanks before some of them. -/
def Spaced : List Word → List Word → Prop :=
  List.Forall₂ fun w w' => w'.token = w.token ∧ w'.spelling = w.spelling ∧
    w.gap.Sublist w'.gap ∧ ∀ b ∈ w'.gap, isBlank b = true

variable {ws ws' : List Word} {tail tail' cs rest : List Char} {t : Token} {offset : Nat}

/-! ## More blanks -/

theorem Spells.ne_nil (h : Spells t cs) : cs ≠ [] := by
  cases h with
  | int hne => exact hne
  | float => exact List.cons_ne_nil _ _
  | ident => exact List.cons_ne_nil _ _
  | symbol h => cases t <;> cases h <;> exact List.cons_ne_nil _ _

theorem Spells.ne_eof (h : Spells t cs) : t ≠ .eof := by
  rintro rfl
  cases h with
  | symbol h => cases h

theorem not_prolongs_of_isBlank {b : Char} (hb : isBlank b = true) (t : Token) (cs : List Char) :
    prolongs t cs b = false := by
  have hnumber : ((cs ++ [b]).foldlM NumberState.step? .start).isSome = false := by
    rw [List.foldlM_append]
    cases cs.foldlM NumberState.step? .start with
    | none => rfl
    | some s => simp [step?_of_isBlank s hb]
  unfold prolongs
  split
  · exact not_continuesName_of_isBlank hb
  · exact hnumber
  · exact hnumber
  · rw [ofPair?_of_isBlank _ hb]
    rfl
  · rfl

theorem head?_spaced (hspaced : Spaced ws ws') (hlaid : Laid ws tail)
    (htail : tail.Sublist tail') (hblank : ∀ b ∈ tail', isBlank b = true) {c : Char}
    (h : (written ws' tail').head? = some c) :
    isBlank c = true ∨ (written ws tail).head? = some c := by
  cases hspaced with
  | nil =>
    obtain ⟨cs, rfl⟩ := List.head?_eq_some_iff.1 h
    exact .inl (hblank c (.head _))
  | @cons w w' ws ws' hw _ =>
    obtain ⟨-, hspelling, hsub, hgap⟩ := hw
    rw [written] at h
    cases hgap' : w'.gap with
    | cons b gap =>
      rw [hgap'] at h
      cases h
      exact .inl (hgap c (by rw [hgap']; exact .head _))
    | nil =>
      rw [hgap'] at hsub h
      obtain ⟨d, ds, hcons⟩ := List.exists_cons_of_ne_nil hlaid.2.1.ne_nil
      rw [hspelling, hcons] at h
      refine .inr ?_
      rw [written, List.sublist_nil.1 hsub, hcons]
      exact h

theorem Laid.spaced (hspaced : Spaced ws ws') (hlaid : Laid ws tail)
    (htail : tail.Sublist tail') (hblank : ∀ b ∈ tail', isBlank b = true) : Laid ws' tail' := by
  induction hspaced with
  | nil => trivial
  | cons hw hspaced ih =>
    obtain ⟨htoken, hspelling, -, hgap⟩ := hw
    obtain ⟨-, hspells, hends, hlaid⟩ := hlaid
    refine ⟨hgap, by rwa [htoken, hspelling], fun c hc => ?_, ih hlaid⟩
    rw [htoken, hspelling]
    rcases head?_spaced hspaced hlaid htail hblank hc with hc | hc
    · exact not_prolongs_of_isBlank hc _ _
    · exact hends c hc

theorem map_token_spaced (h : Spaced ws ws') : ws'.map Word.token = ws.map Word.token := by
  induction h with
  | nil => rfl
  | cons hw _ ih => rw [List.map_cons, List.map_cons, hw.1, ih]

theorem spaced_refl (h : Laid ws tail) : Spaced ws ws := by
  induction ws with
  | nil => exact .nil
  | cons w ws ih => exact .cons ⟨rfl, rfl, .refl _, h.1⟩ (ih h.2.2.2)

theorem IsText.scans_spaced (h : IsText ws tail cs) (hspaced : Spaced ws ws')
    (htail : tail.Sublist tail') (hblank : ∀ b ∈ tail', isBlank b = true) :
    Scans (written ws' tail') (ws.map Word.token ++ [.eof]) := by
  rw [← map_token_spaced hspaced]
  exact IsText.scans ⟨rfl, hblank, h.2.2.spaced hspaced htail hblank⟩

/-! ## Blanks around a text -/

theorem not_isBlank_of_foldlM {s s' : NumberState} (h : cs.foldlM NumberState.step? s = some s') :
    ∀ c ∈ cs, isBlank c = false := by
  induction cs generalizing s with
  | nil => exact nofun
  | cons c cs ih =>
    rw [List.foldlM_cons, Option.bind_eq_bind, Option.bind_eq_some_iff] at h
    obtain ⟨next, hnext, h⟩ := h
    refine List.forall_mem_cons.2 ⟨?_, ih h⟩
    cases hblank : isBlank c with
    | false => rfl
    | true =>
      rw [step?_of_isBlank s hblank] at hnext
      cases hnext

theorem Spells.not_isBlank (h : Spells t cs) : ∀ c ∈ cs, isBlank c = false := by
  cases h with
  | int _ hdigits => exact not_isBlank_of_foldlM (foldlM_step?_of_digits hdigits)
  | float _ hs => exact not_isBlank_of_foldlM hs
  | ident hc hcs =>
    refine List.forall_mem_cons.2 ⟨not_isBlank_of_startsName hc, fun d hd => ?_⟩
    cases hblank : isBlank d with
    | false => rfl
    | true => exact absurd (hcs d hd) (by simp [not_continuesName_of_isBlank hblank])
  | symbol h =>
    have hall : (cs.any isBlank) = false := by cases t <;> cases h <;> decide
    exact fun c hc => Bool.eq_false_iff.2 (List.any_eq_false.1 hall c hc)

theorem Laid.getLast?_written (h : Laid ws rest) {c : Char}
    (hc : (written ws []).getLast? = some c) : isBlank c = false := by
  induction ws with
  | nil => cases hc
  | cons w ws ih =>
    obtain ⟨-, hspells, -, hlaid⟩ := h
    rw [written, List.getLast?_append, List.getLast?_append] at hc
    cases hlast : (written ws []).getLast? with
    | some d =>
      rw [hlast] at hc
      cases hc
      exact ih hlaid hlast
    | none =>
      rw [hlast, Option.none_or, List.getLast?_eq_some_getLast hspells.ne_nil] at hc
      cases hc
      exact hspells.not_isBlank _ (List.getLast_mem hspells.ne_nil)

theorem Laid.of_append (h : Laid ws (tail ++ rest)) : Laid ws tail := by
  induction ws with
  | nil => trivial
  | cons w ws ih =>
    obtain ⟨hgap, hspells, hends, hlaid⟩ := h
    refine ⟨hgap, hspells, fun c hc => hends c ?_, ih hlaid⟩
    rw [written_append] at hc ⊢
    rw [← List.append_assoc, List.head?_append, hc, Option.some_or]

theorem IsText.exists_tail {behind : List Char} (h : IsText ws tail (cs ++ behind))
    (hbehind : ∀ b ∈ behind, isBlank b = true) : ∃ tail', IsText ws tail' cs := by
  obtain ⟨hcs, htail, hlaid⟩ := h
  rw [written_append] at hcs
  rcases List.append_eq_append_iff.1 hcs with ⟨more, hwords, hmore⟩ | ⟨tail', rfl, rfl⟩
  · -- No blank is left over for the words, which do not end in one.
    obtain rfl : more = [] := by
      rw [← List.getLast?_eq_none_iff, Option.eq_none_iff_forall_ne_some]
      intro c hc
      have hlast : (written ws []).getLast? = some c := by
        rw [hwords, List.getLast?_append, hc, Option.some_or]
      have hblank := hbehind c (hmore ▸ List.mem_append_left _ (List.mem_of_getLast? hc))
      rw [hlaid.getLast?_written hlast] at hblank
      cases hblank
    rw [List.append_nil] at hwords
    exact ⟨[], hwords.symm, nofun, @Laid.of_append ws [] tail hlaid⟩
  · exact ⟨tail', (written_append ws tail').symm, (List.forall_mem_append.1 htail).1,
      hlaid.of_append⟩

theorem scans_append_blanks {us : List Token} {behind : List Char}
    (hbehind : ∀ b ∈ behind, isBlank b = true) : Scans (cs ++ behind) us ↔ Scans cs us := by
  constructor
  · intro h
    obtain ⟨ws, tail, htext⟩ := h.exists_isText
    obtain ⟨tail', htext'⟩ := htext.exists_tail hbehind
    rw [htext.tokens_eq h]
    exact htext'.scans
  · intro h
    obtain ⟨ws, tail, htext⟩ := h.exists_isText
    have hblank : ∀ b ∈ tail ++ behind, isBlank b = true :=
      List.forall_mem_append.2 ⟨htext.2.1, hbehind⟩
    have hscans := htext.scans_spaced (spaced_refl htext.2.2) (List.sublist_append_left _ _) hblank
    rwa [← htext.tokens_eq h, written_append, ← List.append_assoc, ← written_append, ← htext.1]
      at hscans

theorem scans_blanks_append {us : List Token} {before : List Char}
    (hbefore : ∀ b ∈ before, isBlank b = true) : Scans (before ++ cs) us ↔ Scans cs us := by
  induction before with
  | nil => rfl
  | cons b before ih =>
    obtain ⟨hb, hbefore⟩ := List.forall_mem_cons.1 hbefore
    rw [← ih hbefore]
    refine ⟨fun h => ?_, .blank hb⟩
    cases h with
    | blank _ h => exact h
    | number hblank => rw [hb] at hblank; cases hblank
    | name hname => rw [not_startsName_of_isBlank hb] at hname; cases hname
    | symbol hblank => rw [hb] at hblank; cases hblank

/-- The blanks at the ends of a text are no part of any token. -/
theorem scans_trim {us : List Token} : Scans (Text.trim cs) us ↔ Scans cs us := by
  obtain ⟨before, behind, hcs, hbefore, hbehind⟩ := Text.exists_trim cs
  rw [← scans_append_blanks hbehind, ← scans_blanks_append hbefore, ← hcs]

/-! ## Offsets -/

theorem places_le (ws : List Word) (offset : Nat) :
    ∀ p ∈ places offset ws, offset ≤ p.2 := by
  induction ws generalizing offset with
  | nil => exact nofun
  | cons w ws ih =>
    intro p hp
    rcases List.mem_cons.1 hp with rfl | hp
    · exact Nat.le_add_right _ _
    · exact Nat.le_trans (by omega) (ih _ p hp)

theorem pairwise_places (h : Laid ws rest) (offset : Nat) :
    ((places offset ws).map Prod.snd ++ [offset + byteLength (written ws rest)]).Pairwise
      (· < ·) := by
  induction ws generalizing offset with
  | nil => exact List.pairwise_singleton _ _
  | cons w ws ih =>
    have hpos := byteLength_pos h.2.1.ne_nil
    have hend := ih h.2.2.2 (offset + byteLength w.gap + byteLength w.spelling)
    rw [places, List.map_cons, List.cons_append, List.pairwise_cons, written, byteLength_append,
      byteLength_append, ← Nat.add_assoc, ← Nat.add_assoc]
    refine ⟨fun n hn => ?_, hend⟩
    rcases List.mem_append.1 hn with hn | hn
    · obtain ⟨p, hp, rfl⟩ := List.mem_map.1 hn
      have := places_le ws _ p hp
      dsimp only
      omega
    · obtain rfl := List.mem_singleton.1 hn
      dsimp only
      omega

/-! ## Numbers and names -/

theorem Spells.digits {n : Nat} (h : Spells (.int n) cs) :
    (∀ d ∈ cs, Decimal.isDigit d = true) ∧ n = Decimal.ofDigits cs := by
  cases h with
  | int _ hdigits => exact ⟨hdigits, rfl⟩
  | symbol h => cases h

theorem Spells.name {x : String} (h : Spells (.ident x) cs) :
    x = String.ofList cs ∧
      ∃ c ds, cs = c :: ds ∧ startsName c = true ∧ ∀ d ∈ ds, continuesName d = true := by
  cases h with
  | ident hc hds => exact ⟨rfl, _, _, rfl, hc, hds⟩
  | symbol h => cases h

theorem Laid.append_cons {before after : List Word} {w : Word}
    (h : Laid (before ++ w :: after) tail) : Laid (w :: after) tail := by
  induction before with
  | nil => exact h
  | cons v before ih => exact ih h.2.2.2

theorem Laid.spells (h : Laid ws tail) {w : Word} (hw : w ∈ ws) : Spells w.token w.spelling := by
  obtain ⟨before, after, rfl⟩ := List.append_of_mem hw
  exact h.append_cons.2.1

theorem Laid.name {before after : List Word} {w : Word} (h : Laid (before ++ w :: after) tail)
    {x : String} (hx : w.token = .ident x) :
    x = String.ofList w.spelling ∧ ∃ c ds, w.spelling = c :: ds ∧ startsName c = true ∧
      (ds ++ written after tail).takeWhile continuesName = ds := by
  obtain ⟨-, hspells, hends, -⟩ := h.append_cons
  rw [hx] at hspells hends
  obtain ⟨hname, c, ds, hcons, hc, hds⟩ := hspells.name
  exact ⟨hname, c, ds, hcons, hc, (Text.span_append hds hends).1⟩

theorem scan_digits {digits : List Char} (hne : digits ≠ [])
    (hdigits : ∀ d ∈ digits, Decimal.isDigit d = true)
    (hrest : ∀ c, rest.head? = some c →
      Decimal.isDigit c = false ∧ c ≠ '.' ∧ c ≠ 'e' ∧ c ≠ 'E') (offset : Nat) :
    scan offset (digits ++ rest) =
      if maxInt < Decimal.ofDigits digits then
        .error (.parse (.integerTooLarge (String.ofList digits) offset))
      else (scan (offset + byteLength digits) rest).map
        ((.int (Decimal.ofDigits digits), offset) :: ·) := by
  obtain ⟨d, ds, rfl⟩ := List.exists_cons_of_ne_nil hne
  have hd : startsNumber d = true := by simp [startsNumber, hdigits d (.head _)]
  have hstop : ∀ c, rest.head? = some c → NumberState.start.step? c = none := by
    intro c hc
    obtain ⟨hdigit, hpoint, he, hE⟩ := hrest c hc
    simp [NumberState.step?, NumberState.start, hdigit, hpoint, he, hE]
  rw [scan_number hd (foldlM_step?_of_digits hdigits) hstop]
  simp only [ofNumber, NumberState.start, Bool.false_eq_true, if_false]
  by_cases hlarge : maxInt < Decimal.ofDigits (d :: ds)
  · rw [if_pos hlarge, if_neg (Nat.not_le.2 hlarge)]
    rfl
  · rw [if_neg hlarge, if_pos (Nat.not_lt.1 hlarge)]
    rfl

end Token

/-! ## Definitions -/

namespace Definition

variable {text : String} {d : Definition}

theorem source_of_parse (h : parse text = .ok d) :
    d.source = String.ofList (Text.trim text.toList) := by
  obtain ⟨w, p, -, -, -, rfl⟩ := parse_eq_ok_iff.1 h
  rfl

theorem parse_trim :
    parse (String.ofList (Text.trim text.toList)) = .ok d ↔ parse text = .ok d := by
  rw [parse_eq_ok_iff, parse_eq_ok_iff, String.toList_ofList, Text.trim_trim]
  simp only [Token.scans_trim]

theorem parse_source (h : parse text = .ok d) : parse d.source = .ok d := by
  rw [source_of_parse h]
  exact parse_trim.2 h

end Definition

namespace Token

open Text (isBlank)

/--
The tokens of a text are spelled by disjoint words, between which there are only blanks. They stand
at the first bytes of the words and are followed by the end of the text. An integer has the value of
its digits, and a name goes as far as it can. With more blanks the words give the same tokens. A run
of digits alone is refused exactly if it is too large, and the blanks at the ends of a text are no
part of a definition.
-/
theorem tokens_spell_text (text : String) :
    (∀ ts, scanAll text = .ok ts → ∃ ws tail, IsText ws tail text.toList ∧
      ts = places 0 ws ++ [(.eof, text.utf8ByteSize)] ∧
      (ts.map Prod.snd).Pairwise (· < ·) ∧
      (∀ w ∈ ws, w.token ≠ .eof ∧ w.spelling ≠ []) ∧
      (∀ w ∈ ws, ∀ n, w.token = .int n →
        (∀ d ∈ w.spelling, Decimal.isDigit d = true) ∧ n = Decimal.ofDigits w.spelling) ∧
      (∀ before w after, ws = before ++ w :: after → ∀ x, w.token = .ident x →
        x = String.ofList w.spelling ∧ ∃ c cs, w.spelling = c :: cs ∧ startsName c = true ∧
          (cs ++ written after tail).takeWhile continuesName = cs) ∧
      ∀ ws' tail', Spaced ws ws' → tail.Sublist tail' → (∀ b ∈ tail', isBlank b = true) →
        ∃ us, scanAll (String.ofList (written ws' tail')) = .ok us ∧ SameTokens ts us) ∧
    (∀ ws gap digits rest, text.toList = written ws (gap ++ (digits ++ rest)) →
      Laid ws (gap ++ (digits ++ rest)) → (∀ b ∈ gap, isBlank b = true) → digits ≠ [] →
      (∀ d ∈ digits, Decimal.isDigit d = true) →
      (∀ c, rest.head? = some c → Decimal.isDigit c = false ∧ c ≠ '.' ∧ c ≠ 'e' ∧ c ≠ 'E') →
      scanAll text =
        if maxInt < Decimal.ofDigits digits then
          .error (.parse (.integerTooLarge (String.ofList digits) (byteLength (written ws gap))))
        else (scan (byteLength (written ws (gap ++ digits))) rest).map
          (places 0 ws ++
            (.int (Decimal.ofDigits digits), byteLength (written ws gap)) :: ·)) ∧
    ∀ d, Definition.parse (String.ofList (Text.trim text.toList)) = .ok d ↔
      Definition.parse text = .ok d := by
  refine ⟨fun ts hts => ?tokens, ?digits, fun d => Definition.parse_trim⟩
  case tokens =>
    obtain ⟨ws, tail, htext, rfl⟩ := scan_eq_ok.1 hts
    have hlaid := htext.2.2
    have hbytes : 0 + byteLength text.toList = text.utf8ByteSize := by
      rw [Nat.zero_add, ← utf8ByteSize_ofList, String.ofList_toList]
    refine ⟨ws, tail, htext, by rw [hbytes], ?_, fun w hw => ?_, fun w hw n hn => ?_, ?_, ?_⟩
    · rw [List.map_append, htext.1]
      exact pairwise_places hlaid 0
    · exact ⟨(hlaid.spells hw).ne_eof, (hlaid.spells hw).ne_nil⟩
    · exact (hn ▸ hlaid.spells hw).digits
    · rintro before w after rfl x hx
      exact hlaid.name hx
    · intro ws' tail' hspaced htail hblank
      obtain ⟨us, hus, htokens⟩ := (htext.scans_spaced hspaced htail hblank).scan 0
      refine ⟨us, by rwa [scanAll, String.toList_ofList], ?_⟩
      rw [SameTokens, htokens, List.map_append, map_fst_places]
      rfl
  case digits =>
    intro ws gap digits rest htext hlaid hgap hne hdigits hrest
    rw [scanAll, htext, scan_written hlaid, scan_gap hgap, scan_digits hne hdigits hrest,
      written_append ws gap, written_append ws (gap ++ digits)]
    simp only [byteLength_append, Nat.zero_add, Nat.add_assoc]
    split
    · rfl
    · cases scan (byteLength (written ws []) + (byteLength gap + byteLength digits)) rest <;> rfl

/-- The second text is one more than an integer can be. -/
theorem tokens_spell_text_accented :
    (scanAll "é<=12" = .ok [(.ident "é", 0), (.le, 2), (.int 12, 4), (.eof, 6)] ∧
      ∃ ws tail, IsText ws tail "é<=12".toList ∧
        [(.ident "é", 0), (.le, 2), (.int 12, 4), (.eof, 6)] =
          places 0 ws ++ [(.eof, "é<=12".utf8ByteSize)] ∧
        ∀ ws' tail', Spaced ws ws' → tail.Sublist tail' → (∀ b ∈ tail', isBlank b = true) →
          ∃ us, scanAll (String.ofList (written ws' tail')) = .ok us ∧
            SameTokens [(.ident "é", 0), (.le, 2), (.int 12, 4), (.eof, 6)] us) ∧
    maxInt < 9223372036854775808 ∧
      scanAll "9223372036854775808" =
        .error (.parse (.integerTooLarge "9223372036854775808" 0)) := by
  constructor
  · have hscan : scanAll "é<=12" = .ok [(.ident "é", 0), (.le, 2), (.int 12, 4), (.eof, 6)] := by
      decide +kernel
    obtain ⟨ws, tail, htext, hts, -, -, -, -, hspaced⟩ := (tokens_spell_text "é<=12").1 _ hscan
    exact ⟨hscan, ws, tail, htext, hts, hspaced⟩
  · have hlarge : maxInt < Decimal.ofDigits "9223372036854775808".toList := by decide +kernel
    have hdigits : "9223372036854775808".toList.all Decimal.isDigit = true := by decide +kernel
    have hscan := (tokens_spell_text "9223372036854775808").2.1 [] []
      "9223372036854775808".toList [] (by simp [written]) trivial nofun (by decide +kernel)
      (List.all_eq_true.1 hdigits) nofun
    rw [if_pos hlarge] at hscan
    exact ⟨by decide, hscan⟩

end Token

end Pointwise

import Pointwise.Proofs.Definition.Scanning

/-!
# The words of a text

A text is a row of words with blanks between them. Each word is the spelling of one token and ends
where no more characters belong to it, so a text can be scanned word by word.
-/

namespace Pointwise.Token

open Text (isBlank)

/-- A token as it stands in a text, after the blanks before it. -/
structure Word where
  gap : List Char
  spelling : List Char
  token : Token

/-- How an operator, a bracket or a comma is written. -/
def symbol? : Token → Option (List Char)
  | plus => some ['+']
  | minus => some ['-']
  | star => some ['*']
  | slash => some ['/']
  | assign => some ['=']
  | eq => some ['=', '=']
  | ne => some ['!', '=']
  | not => some ['!']
  | lt => some ['<']
  | le => some ['<', '=']
  | gt => some ['>']
  | ge => some ['>', '=']
  | and => some ['&', '&']
  | or => some ['|', '|']
  | leftParen => some ['(']
  | rightParen => some [')']
  | comma => some [',']
  | _ => none

/-- Whether a token can be written so. -/
inductive Spells : Token → List Char → Prop where
  | int {ds : List Char} : ds ≠ [] → (∀ d ∈ ds, Decimal.isDigit d = true) →
      Decimal.ofDigits ds ≤ maxInt → Spells (.int (Decimal.ofDigits ds)) ds
  | float {c : Char} {cs : List Char} {s : NumberState} {d : Decimal} : startsNumber c = true →
      (c :: cs).foldlM NumberState.step? .start = some s → s.isFloat = true →
      Decimal.read? (c :: cs) = some d →
      Spells (.float (BitVec.ofNat 64 (d.toMagnitude Binary.double))) (c :: cs)
  | ident {c : Char} {cs : List Char} : startsName c = true →
      (∀ d ∈ cs, continuesName d = true) → Spells (.ident (String.ofList (c :: cs))) (c :: cs)
  | symbol {t : Token} {cs : List Char} : t.symbol? = some cs → Spells t cs

/-- Whether a character that follows a word would belong to it. -/
def prolongs (t : Token) (spelling : List Char) (c : Char) : Bool :=
  match t, spelling with
  | .ident _, _ => continuesName c
  | .int _, cs | .float _, cs => ((cs ++ [c]).foldlM NumberState.step? .start).isSome
  | _, [d] => (ofPair? d c).isSome
  | _, _ => false

/-- A text that begins with some words, each after its gap. -/
def written : List Word → List Char → List Char
  | [], rest => rest
  | w :: ws, rest => w.gap ++ (w.spelling ++ written ws rest)

/-- Words that are spelled as their tokens and end where they have to before what follows. -/
def Laid : List Word → List Char → Prop
  | [], _ => True
  | w :: ws, rest =>
    (∀ b ∈ w.gap, isBlank b = true) ∧ Spells w.token w.spelling ∧
      (∀ c, (written ws rest).head? = some c → prolongs w.token w.spelling c = false) ∧ Laid ws rest

/-- The tokens of some words, each with the number of bytes before its spelling. -/
def places (offset : Nat) : List Word → List PlacedToken
  | [] => []
  | w :: ws =>
    (w.token, offset + byteLength w.gap) ::
      places (offset + byteLength w.gap + byteLength w.spelling) ws

variable {c d : Char} {cs rest : List Char} {t : Token} {offset : Nat}

/-! ## Bytes -/

theorem byteLength_cons (c : Char) (cs : List Char) :
    byteLength (c :: cs) = c.utf8Size + byteLength cs := by
  simp [byteLength]

theorem byteLength_append (cs ds : List Char) :
    byteLength (cs ++ ds) = byteLength cs + byteLength ds := by
  simp [byteLength]

theorem byteLength_pos (h : cs ≠ []) : 0 < byteLength cs := by
  obtain ⟨c, cs, rfl⟩ := List.exists_cons_of_ne_nil h
  have := c.utf8Size_pos
  rw [byteLength_cons]
  omega

theorem utf8ByteSize_ofList (cs : List Char) : (String.ofList cs).utf8ByteSize = byteLength cs := by
  induction cs with
  | nil => rfl
  | cons c cs ih =>
    have hcons : String.ofList (c :: cs) = String.singleton c ++ String.ofList cs := by
      rw [String.singleton_eq_ofList, ← String.ofList_append, List.singleton_append]
    rw [hcons, String.utf8ByteSize_append, String.utf8ByteSize_singleton, ih, byteLength_cons]

/-! ## Numbers -/

theorem takeNumber_eq_iff {s s' : NumberState} {digits : List Char} :
    takeNumber s cs = (digits, rest, s') ↔ cs = digits ++ rest ∧
      digits.foldlM NumberState.step? s = some s' ∧
        ∀ c, rest.head? = some c → s'.step? c = none := by
  induction cs generalizing s digits with
  | nil =>
    simp only [takeNumber, Prod.mk.injEq, eq_comm (a := []), List.append_eq_nil_iff, and_assoc]
    constructor
    · rintro ⟨rfl, rfl, rfl⟩
      exact ⟨rfl, rfl, rfl, by simp⟩
    · rintro ⟨rfl, rfl, h, -⟩
      exact ⟨rfl, rfl, Option.some.inj h⟩
  | cons c cs ih =>
    rw [takeNumber]
    cases hstep : s.step? c with
    | none =>
      simp only [Prod.mk.injEq]
      constructor
      · rintro ⟨rfl, rfl, rfl⟩
        refine ⟨rfl, rfl, ?_⟩
        rintro d ⟨⟩
        exact hstep
      · rintro ⟨hcs, hdigits, -⟩
        cases digits with
        | nil => exact ⟨rfl, hcs, Option.some.inj hdigits⟩
        | cons d digits =>
          obtain ⟨rfl, -⟩ := List.cons.inj hcs
          simp [hstep] at hdigits
    | some next =>
      cases digits with
      | nil =>
        refine iff_of_false (by simp) ?_
        rintro ⟨hcs, hs, hstop⟩
        obtain rfl := Option.some.inj hs
        rw [hstop c (by rw [← List.nil_append rest, ← hcs]; rfl)] at hstep
        cases hstep
      | cons d digits =>
        have htake : takeNumber next cs = (digits, rest, s') ↔ cs = digits ++ rest ∧
            digits.foldlM NumberState.step? next = some s' ∧
              ∀ c, rest.head? = some c → s'.step? c = none := ih
        simp only [Prod.ext_iff, List.cons.injEq, List.cons_append, List.foldlM_cons] at htake ⊢
        constructor
        · rintro ⟨⟨rfl, h⟩, hrest⟩
          obtain ⟨hcs, hfold, hstop⟩ := htake.1 ⟨h, hrest⟩
          exact ⟨⟨rfl, hcs⟩, by rw [hstep]; exact hfold, hstop⟩
        · rintro ⟨⟨rfl, hcs⟩, hfold, hstop⟩
          rw [hstep] at hfold
          obtain ⟨h, hrest⟩ := htake.2 ⟨hcs, hfold, hstop⟩
          exact ⟨⟨rfl, h⟩, hrest⟩

theorem step?_start_of_isDigit (h : Decimal.isDigit c = true) :
    NumberState.start.step? c = some .start := by
  rw [NumberState.step?, if_pos h]
  rfl

theorem exists_step?_start (h : startsNumber c = true) :
    ∃ s, NumberState.start.step? c = some s := by
  rcases Bool.or_eq_true_iff.1 h with hdigit | hpoint
  · exact ⟨_, step?_start_of_isDigit hdigit⟩
  · obtain rfl := beq_iff_eq.1 hpoint
    exact ⟨_, rfl⟩

theorem foldlM_step?_of_digits (h : ∀ d ∈ cs, Decimal.isDigit d = true) :
    cs.foldlM NumberState.step? .start = some .start := by
  induction cs with
  | nil => rfl
  | cons d cs ih =>
    rw [List.forall_mem_cons] at h
    rw [List.foldlM_cons, step?_start_of_isDigit h.1]
    exact ih h.2

theorem isFloat_step? {s s' : NumberState} (h : s.step? c = some s') (hs : s.isFloat = true) :
    s'.isFloat = true := by
  unfold NumberState.step? at h
  repeat' split at h
  all_goals cases h
  all_goals first | exact hs | rfl

theorem isFloat_foldlM {s s' : NumberState} (h : cs.foldlM NumberState.step? s = some s')
    (hs : s.isFloat = true) : s'.isFloat = true := by
  induction cs generalizing s with
  | nil =>
    cases h
    exact hs
  | cons c cs ih =>
    rw [List.foldlM_cons, Option.bind_eq_bind, Option.bind_eq_some_iff] at h
    obtain ⟨next, hnext, h⟩ := h
    exact ih h (isFloat_step? hnext hs)

theorem step?_start {s : NumberState} (h : NumberState.start.step? c = some s) :
    Decimal.isDigit c = true ∨ s.isFloat = true := by
  unfold NumberState.step? at h
  split at h
  next hdigit => exact .inl hdigit
  split at h
  · cases h
    exact .inr rfl
  split at h
  · cases h
    exact .inr rfl
  split at h
  next hsign => cases hsign.2
  · cases h

theorem digits_of_foldlM {s : NumberState} (h : cs.foldlM NumberState.step? .start = some s)
    (hs : s.isFloat = false) : ∀ d ∈ cs, Decimal.isDigit d = true := by
  induction cs with
  | nil => exact nofun
  | cons c cs ih =>
    rw [List.foldlM_cons, Option.bind_eq_bind, Option.bind_eq_some_iff] at h
    obtain ⟨next, hnext, h⟩ := h
    rcases step?_start hnext with hdigit | hfloat
    · rw [step?_start_of_isDigit hdigit] at hnext
      cases hnext
      exact List.forall_mem_cons.2 ⟨hdigit, ih h⟩
    · rw [isFloat_foldlM h hfloat] at hs
      cases hs

/-! ## Symbols -/

theorem symbol?_eq_some : t.symbol? = some cs ↔
    (∃ c d, cs = [c, d] ∧ ofPair? c d = some t) ∨ ∃ c, cs = [c] ∧ ofSingle? c = some t := by
  constructor
  · intro h
    cases t <;> cases h <;> first
      | exact .inl ⟨_, _, rfl, rfl⟩
      | exact .inr ⟨_, rfl, rfl⟩
  · rintro (⟨c, d, rfl, h⟩ | ⟨c, rfl, h⟩)
    · unfold ofPair? at h
      split at h <;> cases h <;> rfl
    · unfold ofSingle? at h
      split at h <;> cases h <;> rfl

theorem prolongs_single (h : t.symbol? = some [c]) : prolongs t [c] d = (ofPair? c d).isSome := by
  cases t <;> first | rfl | cases h

theorem prolongs_pair {e : Char} (h : t.symbol? = some [c, d]) : prolongs t [c, d] e = false := by
  cases t <;> first | rfl | cases h

theorem symbol_head (h : ofPair? c d = some t ∨ ofSingle? c = some t) :
    isBlank c = false ∧ startsNumber c = false ∧ startsName c = false ∧ c.utf8Size = 1 := by
  rcases h with h | h
  · unfold ofPair? at h
    split at h <;> cases h <;> decide +kernel
  · unfold ofSingle? at h
    split at h <;> cases h <;> decide +kernel

theorem utf8Size_second (h : ofPair? c d = some t) : d.utf8Size = 1 := by
  unfold ofPair? at h
  split at h <;> cases h <;> decide

/-! ## Scanning word by word -/

theorem not_isBlank_of_startsNumber (h : startsNumber c = true) : isBlank c = false := by
  cases hblank : isBlank c with
  | false => rfl
  | true =>
    rw [not_startsNumber_of_isBlank hblank] at h
    cases h

theorem scan_gap {gap : List Char} (h : ∀ b ∈ gap, isBlank b = true) (offset : Nat)
    (cs : List Char) : scan offset (gap ++ cs) = scan (offset + byteLength gap) cs := by
  induction gap generalizing offset with
  | nil => rfl
  | cons b gap ih =>
    rw [List.forall_mem_cons] at h
    rw [List.cons_append, scan, if_pos h.1, ih h.2, byteLength_cons, Nat.add_assoc]

theorem scan_number {s : NumberState} (hc : startsNumber c = true)
    (hs : (c :: cs).foldlM NumberState.step? .start = some s)
    (hrest : ∀ d, rest.head? = some d → s.step? d = none) (offset : Nat) :
    scan offset (c :: cs ++ rest) = (ofNumber (c :: cs) s.isFloat offset).bind fun t =>
      (scan (offset + byteLength (c :: cs)) rest).map ((t, offset) :: ·) := by
  rw [List.foldlM_cons, Option.bind_eq_bind, Option.bind_eq_some_iff] at hs
  obtain ⟨next, hnext, hs⟩ := hs
  have htake : takeNumber next (cs ++ rest) = (cs, rest, s) :=
    takeNumber_eq_iff.2 ⟨rfl, hs, hrest⟩
  rw [List.cons_append, scan, if_neg (by simp [not_isBlank_of_startsNumber hc]), if_pos hc]
  simp only [hnext, Option.getD_some, htake]
  cases ofNumber (c :: cs) s.isFloat offset with
  | error e => rfl
  | ok t => cases scan (offset + byteLength (c :: cs)) rest <;> rfl

theorem scan_name (hc : startsName c = true) (hcs : ∀ d ∈ cs, continuesName d = true)
    (hrest : ∀ d, rest.head? = some d → continuesName d = false) (offset : Nat) :
    scan offset (c :: cs ++ rest) = (scan (offset + byteLength (c :: cs)) rest).map
      ((.ident (String.ofList (c :: cs)), offset) :: ·) := by
  obtain ⟨htake, hdrop⟩ := Text.span_append hcs hrest
  rw [List.cons_append, scan, if_neg (by simp [not_isBlank_of_startsName hc]),
    if_neg (by simp [not_startsNumber_of_startsName hc]), if_pos hc]
  simp only [htake, hdrop]
  cases scan (offset + byteLength (c :: cs)) rest <;> rfl

theorem scan_symbol (hc : isBlank c = false ∧ startsNumber c = false ∧ startsName c = false)
    (h : takeSymbol? c cs = some (t, rest)) (offset : Nat) :
    scan offset (c :: cs) =
      (scan (offset + (1 + cs.length - rest.length)) rest).map ((t, offset) :: ·) := by
  rw [scan, if_neg (by simp [hc.1]), if_neg (by simp [hc.2.1]), if_neg (by simp [hc.2.2])]
  split
  next heq =>
    cases h.symm.trans heq
    cases scan (offset + (1 + cs.length - rest.length)) rest <;> rfl
  next heq => cases h.symm.trans heq

theorem prolongs_number {s : NumberState} (ht : t.isNumber = true)
    (hs : cs.foldlM NumberState.step? .start = some s) (c : Char) :
    prolongs t cs c = false ↔ s.step? c = none := by
  have hstep : ((cs ++ [c]).foldlM NumberState.step? .start).isSome = (s.step? c).isSome := by
    rw [List.foldlM_append, hs]
    simp
  cases t with
  | int n | float p => rw [prolongs, hstep, Option.isSome_eq_false_iff, Option.isNone_iff_eq_none]
  | _ => cases ht

theorem scan_spelling (h : Spells t cs)
    (hrest : ∀ c, rest.head? = some c → prolongs t cs c = false) (offset : Nat) :
    scan offset (cs ++ rest) = (scan (offset + byteLength cs) rest).map ((t, offset) :: ·) := by
  cases h with
  | int hne hdigits hle =>
    obtain ⟨d, ds, rfl⟩ := List.exists_cons_of_ne_nil hne
    have hs := foldlM_step?_of_digits hdigits
    have hd : startsNumber d = true := by simp [startsNumber, hdigits d (.head _)]
    rw [scan_number hd hs fun c hc => (prolongs_number rfl hs c).1 (hrest c hc)]
    simp only [ofNumber, NumberState.start, Bool.false_eq_true, if_false, if_pos hle]
    rfl
  | float hc hs hfloat hd =>
    rw [scan_number hc hs fun c hc => (prolongs_number rfl hs c).1 (hrest c hc)]
    simp only [ofNumber, hfloat, if_true, hd]
    rfl
  | ident hc hcs => exact scan_name hc hcs hrest offset
  | symbol h =>
    rcases symbol?_eq_some.1 h with ⟨c, d, rfl, hpair⟩ | ⟨c, rfl, hsingle⟩
    · obtain ⟨hblank, hnumber, hname, hsize⟩ := symbol_head (.inl hpair)
      have hlength : byteLength [c, d] = 2 := by
        simp [byteLength, hsize, utf8Size_second hpair]
      have htake : takeSymbol? c (d :: rest) = some (t, rest) := takeSymbol?_of_pair hpair
      rw [List.cons_append, List.singleton_append, scan_symbol ⟨hblank, hnumber, hname⟩ htake,
        hlength, List.length_cons]
      congr 2
      omega
    · obtain ⟨hblank, hnumber, hname, hsize⟩ := symbol_head (d := c) (.inr hsingle)
      have hstop : ∀ d, rest.head? = some d → ofPair? c d = none := by
        intro d hd
        have hprolongs := hrest d hd
        rw [prolongs_single h] at hprolongs
        simpa using hprolongs
      have htake : takeSymbol? c rest = some (t, rest) := by
        rw [takeSymbol?_of_single hstop, hsingle, Option.map_some]
      have hlength : byteLength [c] = 1 := by simp [byteLength, hsize]
      rw [List.singleton_append, scan_symbol ⟨hblank, hnumber, hname⟩ htake, hlength]
      congr 2
      omega

theorem written_append (ws : List Word) (rest : List Char) :
    written ws rest = written ws [] ++ rest := by
  induction ws with
  | nil => rfl
  | cons w ws ih => rw [written, ih, written, List.append_assoc, List.append_assoc]

theorem scan_written {ws : List Word} (h : Laid ws rest) (offset : Nat) :
    scan offset (written ws rest) =
      (scan (offset + byteLength (written ws [])) rest).map (places offset ws ++ ·) := by
  induction ws generalizing offset with
  | nil => cases hscan : scan offset rest <;> simp [written, places, byteLength, hscan]
  | cons w ws ih =>
    obtain ⟨hgap, hspells, hends, hlaid⟩ := h
    have hbytes : byteLength (written (w :: ws) []) =
        byteLength w.gap + byteLength w.spelling + byteLength (written ws []) := by
      rw [written, byteLength_append, byteLength_append, Nat.add_assoc]
    rw [written, scan_gap hgap, scan_spelling hspells hends, ih hlaid, hbytes, places]
    simp only [Nat.add_assoc]
    cases scan (offset + (byteLength w.gap + (byteLength w.spelling +
      byteLength (written ws [])))) rest <;> rfl

theorem spells_of_ofNumber {s : NumberState} (hc : startsNumber c = true)
    (hs : (c :: cs).foldlM NumberState.step? .start = some s)
    (ht : ofNumber (c :: cs) s.isFloat offset = .ok t) : Spells t (c :: cs) := by
  unfold ofNumber at ht
  split at ht
  next hfloat =>
    split at ht
    next d hd =>
      cases ht
      exact .float hc hs hfloat hd
    next => cases ht
  next hfloat =>
    dsimp only at ht
    split at ht
    next hle =>
      cases ht
      exact .int (List.cons_ne_nil _ _) (digits_of_foldlM hs (by simpa using hfloat)) hle
    next => cases ht

/-! ## Texts as rows of words -/

/-- Whether a text consists of some words and of the blanks after them. -/
def IsText (ws : List Word) (tail cs : List Char) : Prop :=
  cs = written ws tail ∧ (∀ b ∈ tail, isBlank b = true) ∧ Laid ws tail

variable {ws : List Word} {tail : List Char}

theorem IsText.scan (h : IsText ws tail cs) (offset : Nat) :
    scan offset cs = .ok (places offset ws ++ [(.eof, offset + byteLength cs)]) := by
  obtain ⟨rfl, htail, hlaid⟩ := h
  have hend := scan_gap htail (offset + byteLength (written ws [])) []
  rw [List.append_nil, Token.scan] at hend
  rw [scan_written hlaid, hend, map_ok, written_append ws tail, byteLength_append, Nat.add_assoc]

theorem IsText.blank {b : Char} (hb : isBlank b = true) (h : IsText ws tail cs) :
    ∃ ws' tail', IsText ws' tail' (b :: cs) := by
  obtain ⟨rfl, htail, hlaid⟩ := h
  cases ws with
  | nil => exact ⟨[], b :: tail, rfl, List.forall_mem_cons.2 ⟨hb, htail⟩, trivial⟩
  | cons w ws =>
    exact ⟨{ w with gap := b :: w.gap } :: ws, tail, rfl, htail,
      List.forall_mem_cons.2 ⟨hb, hlaid.1⟩, hlaid.2⟩

theorem IsText.word (hspells : Spells t cs)
    (hends : ∀ c, rest.head? = some c → prolongs t cs c = false) (h : IsText ws tail rest) :
    IsText (⟨[], cs, t⟩ :: ws) tail (cs ++ rest) := by
  obtain ⟨rfl, htail, hlaid⟩ := h
  exact ⟨rfl, htail, nofun, hspells, hends, hlaid⟩

theorem Scans.exists_isText {ts : List Token} (h : Scans cs ts) : ∃ ws tail, IsText ws tail cs := by
  induction h with
  | eof => exact ⟨[], [], rfl, nofun, trivial⟩
  | blank hblank _ ih =>
    obtain ⟨ws, tail, htext⟩ := ih
    exact htext.blank hblank
  | @number c cs digits rest s t ts _ hc htake ht _ ih =>
    obtain ⟨ws, tail, htext⟩ := ih
    obtain ⟨next, hnext⟩ := exists_step?_start hc
    rw [hnext, Option.getD_some, takeNumber_eq_iff] at htake
    obtain ⟨rfl, hs, hstop⟩ := htake
    have hs : (c :: digits).foldlM NumberState.step? .start = some s := by
      rw [List.foldlM_cons, hnext]
      exact hs
    have hends : ∀ d, rest.head? = some d → prolongs t (c :: digits) d = false := fun d hd =>
      (prolongs_number (isNumber_of_ofNumber (ht 0)) hs d).2 (hstop d hd)
    exact ⟨_, tail, htext.word (spells_of_ofNumber hc hs (ht 0)) hends⟩
  | @name c cs ts hc _ ih =>
    obtain ⟨ws, tail, htext⟩ := ih
    have hspells := Spells.ident hc fun d => List.mem_takeWhile_imp (l := cs)
    have hends : ∀ d, (cs.dropWhile continuesName).head? = some d → continuesName d = false := by
      intro d hd
      simpa [hd] using List.head?_dropWhile_not continuesName cs
    have hword := htext.word hspells hends
    rw [List.cons_append, List.takeWhile_append_dropWhile] at hword
    exact ⟨_, tail, hword⟩
  | @symbol c cs rest t ts _ _ _ hsymbol _ ih =>
    obtain ⟨ws, tail, htext⟩ := ih
    rcases takeSymbol?_eq_some hsymbol with ⟨d, rfl, hpair⟩ | ⟨rfl, hsingle, hstop⟩
    · have hd := symbol?_eq_some.2 (.inl ⟨c, d, rfl, hpair⟩)
      exact ⟨_, tail, htext.word (.symbol hd) fun e _ => prolongs_pair hd⟩
    · have hc := symbol?_eq_some.2 (.inr ⟨c, rfl, hsingle⟩)
      refine ⟨_, tail, htext.word (.symbol hc) fun d hd => ?_⟩
      rw [prolongs_single hc, hstop d hd]
      rfl

theorem map_fst_places (ws : List Word) (offset : Nat) :
    (places offset ws).map Prod.fst = ws.map Word.token := by
  induction ws generalizing offset with
  | nil => rfl
  | cons w ws ih => rw [places, List.map_cons, List.map_cons, ih]

theorem IsText.scans (h : IsText ws tail cs) : Scans cs (ws.map Word.token ++ [.eof]) := by
  have hscans := scans_of_scan (h.scan 0)
  rwa [List.map_append, map_fst_places] at hscans

theorem IsText.tokens_eq {us : List Token} (h : IsText ws tail cs) (hus : Scans cs us) :
    us = ws.map Word.token ++ [.eof] := by
  obtain ⟨ts, hts, rfl⟩ := hus.scan 0
  rw [h.scan] at hts
  cases hts
  rw [List.map_append, map_fst_places]
  rfl

theorem scan_eq_ok {ts : List PlacedToken} : scan offset cs = .ok ts ↔
    ∃ ws tail, IsText ws tail cs ∧ ts = places offset ws ++ [(.eof, offset + byteLength cs)] := by
  constructor
  · intro h
    obtain ⟨ws, tail, htext⟩ := (scans_of_scan h).exists_isText
    exact ⟨ws, tail, htext, Except.ok.inj (h.symm.trans (htext.scan offset))⟩
  · rintro ⟨ws, tail, htext, rfl⟩
    exact htext.scan offset

end Pointwise.Token

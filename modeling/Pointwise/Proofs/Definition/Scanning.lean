import Pointwise.Proofs.Definition.Blanks

/-!
# Which tokens are cut out of a text

The tokens without their places, by the kind of the first character.
-/

namespace Pointwise.Token

open Text (isBlank isLetter)

/-- Whether a text is one name. -/
def isName (s : String) : Bool :=
  match s.toList with
  | [] => false
  | c :: cs => startsName c && cs.all continuesName

def isNumber : Token → Bool
  | int _ | float _ => true
  | _ => false

def isIdent : Token → Bool
  | ident _ => true
  | _ => false

/-- Which tokens are cut out of a text. -/
inductive Scans : List Char → List Token → Prop where
  | eof : Scans [] [.eof]
  | blank {c : Char} {cs : List Char} {ts : List Token} :
      isBlank c = true → Scans cs ts → Scans (c :: cs) ts
  | number {c : Char} {cs digits rest : List Char} {s : NumberState} {t : Token}
      {ts : List Token} :
      isBlank c = false → startsNumber c = true →
      takeNumber ((NumberState.start.step? c).getD .start) cs = (digits, rest, s) →
      (∀ offset, ofNumber (c :: digits) s.isFloat offset = .ok t) → Scans rest ts →
      Scans (c :: cs) (t :: ts)
  | name {c : Char} {cs : List Char} {ts : List Token} :
      startsName c = true → Scans (cs.dropWhile continuesName) ts →
      Scans (c :: cs) (.ident (String.ofList (c :: cs.takeWhile continuesName)) :: ts)
  | symbol {c : Char} {cs rest : List Char} {t : Token} {ts : List Token} :
      isBlank c = false → startsNumber c = false → startsName c = false →
      takeSymbol? c cs = some (t, rest) → Scans rest ts → Scans (c :: cs) (t :: ts)

variable {c d : Char} {cs : List Char} {t : Token} {ts : List Token}

/-! ## Kinds of characters -/

theorem not_isLetter_of_isDigit (h : Decimal.isDigit c = true) : isLetter c = false := by
  have hin : Text.inRanges [(0x30, 0x39)] c = true := by
    rw [← h]
    simp [Decimal.isDigit, Text.inRanges, Char.le_def, UInt32.le_iff_toNat_le]
  exact Text.inRanges_eq_false_of_disjoint
    (show Text.disjoint [(0x30, 0x39)] Text.letterRanges = true by decide +kernel) hin

theorem ne_of_startsName (h : startsName c = true) (hd : startsName d = false) : c ≠ d := by
  rintro rfl
  rw [h] at hd
  cases hd

theorem not_isBlank_of_startsName (h : startsName c = true) : isBlank c = false := by
  cases hblank : isBlank c with
  | false => rfl
  | true =>
    have hne : c ≠ '_' := Text.ne_of_isBlank hblank (by decide)
    simp [startsName, Text.not_isLetter_of_isBlank hblank, hne] at h

theorem not_startsName_of_isBlank (h : isBlank c = true) : startsName c = false := by
  cases hname : startsName c with
  | false => rfl
  | true =>
    rw [not_isBlank_of_startsName hname] at h
    cases h

theorem not_startsNumber_of_isBlank (h : isBlank c = true) : startsNumber c = false := by
  have hpoint : c ≠ '.' := Text.ne_of_isBlank h (by decide)
  simp [startsNumber, Text.not_isDigit_of_isBlank h, hpoint]

theorem not_startsNumber_of_startsName (h : startsName c = true) : startsNumber c = false := by
  have hpoint : c ≠ '.' := ne_of_startsName h (by decide +kernel)
  cases hdigit : Decimal.isDigit c with
  | false => simp [startsNumber, hdigit, hpoint]
  | true =>
    have hne : c ≠ '_' := by
      rintro rfl
      cases hdigit
    simp [startsName, not_isLetter_of_isDigit hdigit, hne] at h

theorem continuesName_of_startsName (h : startsName c = true) : continuesName c = true := by
  rcases Bool.or_eq_true_iff.1 h with hletter | hline
  · simp [continuesName, hletter]
  · simp [continuesName, hline]

theorem startsName_of_continuesName (h : continuesName c = false) : startsName c = false := by
  cases hname : startsName c with
  | false => rfl
  | true =>
    rw [continuesName_of_startsName hname] at h
    cases h

theorem eq_of_ofPair? {t : Token} (h : ofPair? c d = some t) : d = '=' ∨ d = '&' ∨ d = '|' := by
  unfold ofPair? at h
  split at h <;> simp_all

theorem ofPair?_of_startsName (h : startsName d = true) : ofPair? c d = none := by
  cases hpair : ofPair? c d with
  | none => rfl
  | some t =>
    rcases eq_of_ofPair? hpair with rfl | rfl | rfl
    all_goals exact absurd h (by decide +kernel)

/-! ## Names -/

theorem isName_ofList (hc : startsName c = true) (cs : List Char) :
    isName (String.ofList (c :: cs.takeWhile continuesName)) = true := by
  unfold isName
  rw [String.toList_ofList]
  simp [hc]

theorem exists_cons_of_isName {x : String} (hx : isName x = true) :
    ∃ c cs, x.toList = c :: cs ∧ startsName c = true ∧ ∀ d ∈ cs, continuesName d = true := by
  unfold isName at hx
  split at hx
  · cases hx
  next c cs heq =>
    rw [Bool.and_eq_true, List.all_eq_true] at hx
    exact ⟨c, cs, heq, hx⟩

/-! ## Symbols and numbers -/

theorem takeSymbol?_of_pair {t : Token} (h : ofPair? c d = some t) :
    takeSymbol? c (d :: cs) = some (t, cs) := by
  unfold takeSymbol?
  simp only [h]

theorem takeSymbol?_of_single (h : ∀ d, cs.head? = some d → ofPair? c d = none) :
    takeSymbol? c cs = (ofSingle? c).map (·, cs) := by
  unfold takeSymbol?
  cases cs with
  | nil => rfl
  | cons d cs => simp only [h d rfl]

theorem takeSymbol?_eq_some {t : Token} {rest : List Char}
    (h : takeSymbol? c cs = some (t, rest)) :
    (∃ d, cs = d :: rest ∧ ofPair? c d = some t) ∨
      cs = rest ∧ ofSingle? c = some t ∧ ∀ d, cs.head? = some d → ofPair? c d = none := by
  by_cases hpair : ∃ d u, cs.head? = some d ∧ ofPair? c d = some u
  · obtain ⟨d, u, hhead, hu⟩ := hpair
    obtain ⟨ds, rfl⟩ := List.head?_eq_some_iff.1 hhead
    rw [takeSymbol?_of_pair hu] at h
    cases h
    exact .inl ⟨d, rfl, hu⟩
  · have hnone : ∀ d, cs.head? = some d → ofPair? c d = none := fun d hd =>
      Option.eq_none_iff_forall_ne_some.2 fun u hu => hpair ⟨d, u, hd, hu⟩
    rw [takeSymbol?_of_single hnone] at h
    obtain ⟨u, hu, heq⟩ := Option.map_eq_some_iff.1 h
    cases heq
    exact .inr ⟨rfl, hu, hnone⟩

theorem of_takeSymbol? {rest : List Char} (h : takeSymbol? c cs = some (t, rest)) :
    isIdent t = false ∧ t ≠ .eof ∧ (t = .leftParen ↔ c = '(') := by
  rcases takeSymbol?_eq_some h with ⟨d, -, hpair⟩ | ⟨-, hsingle, -⟩
  · unfold ofPair? at hpair
    split at hpair <;> cases hpair <;> decide
  · unfold ofSingle? at hsingle
    split at hsingle <;> cases hsingle <;> decide

theorem isIdent_of_isNumber (h : isNumber t = true) : isIdent t = false := by
  cases t <;> first | rfl | cases h

theorem isNumber_of_ofNumber {isFloat : Bool} {offset : Nat} {t : Token}
    (h : ofNumber cs isFloat offset = .ok t) : isNumber t = true := by
  unfold ofNumber at h
  split at h
  · split at h <;> cases h
    rfl
  · dsimp only at h
    split at h <;> cases h
    rfl

/-! ## The scan -/

theorem ofNumber_of_ok {cs : List Char} {isFloat : Bool} {offset : Nat} {t : Token}
    (h : ofNumber cs isFloat offset = .ok t) (start : Nat) : ofNumber cs isFloat start = .ok t := by
  cases isFloat with
  | true =>
    simp only [ofNumber, if_true] at h ⊢
    split at h
    · exact h
    · cases h
  | false =>
    simp only [ofNumber, Bool.false_eq_true, if_false] at h ⊢
    split at h
    next hle => rwa [if_pos hle]
    · cases h

theorem scans_of_scan {offset : Nat} {ts : List PlacedToken} (h : scan offset cs = .ok ts) :
    Scans cs (ts.map Prod.fst) := by
  induction offset, cs using scan.induct generalizing ts with
  | case1 offset =>
    rw [scan] at h
    cases h
    exact .eof
  | case2 offset c cs hblank ih =>
    rw [scan, if_pos hblank] at h
    exact .blank hblank (ih h)
  | case3 offset c cs hblank hnumber number =>
    rename_i ih
    rw [scan, if_neg hblank, if_pos hnumber] at h
    obtain ⟨t, ht, h⟩ := bind_eq_ok.1 h
    obtain ⟨more, hmore, h⟩ := bind_eq_ok.1 h
    cases h
    exact .number (by simpa using hblank) hnumber rfl (ofNumber_of_ok ht) (ih hmore)
  | case4 offset c cs hblank hnumber hname name =>
    rename_i ih
    rw [scan, if_neg hblank, if_neg hnumber, if_pos hname] at h
    obtain ⟨more, hmore, h⟩ := bind_eq_ok.1 h
    cases h
    exact .name hname (ih hmore)
  | case5 offset c cs hblank hnumber hname t rest hsymbol ih =>
    rw [scan, if_neg hblank, if_neg hnumber, if_neg hname] at h
    split at h
    next heq =>
      cases hsymbol.symm.trans heq
      obtain ⟨more, hmore, h⟩ := bind_eq_ok.1 h
      cases h
      exact .symbol (by simpa using hblank) (by simpa using hnumber) (by simpa using hname) hsymbol
        (ih hmore)
    next => cases h
  | case6 offset c cs hblank hnumber hname hsymbol =>
    rw [scan, if_neg hblank, if_neg hnumber, if_neg hname] at h
    split at h
    next heq => cases hsymbol.symm.trans heq
    next => cases h

namespace Scans

theorem scan (h : Scans cs ts) (offset : Nat) :
    ∃ us, scan offset cs = .ok us ∧ us.map Prod.fst = ts := by
  induction h generalizing offset with
  | eof => exact ⟨[(.eof, offset)], by rw [Token.scan], rfl⟩
  | blank hc _ ih =>
    obtain ⟨us, hus, heq⟩ := ih _
    exact ⟨us, by rw [Token.scan, if_pos hc, hus], heq⟩
  | @number c cs digits rest s t ts hblank hc htake ht _ ih =>
    obtain ⟨us, hus, heq⟩ := ih (offset + byteLength (c :: digits))
    refine ⟨(t, offset) :: us, ?_, congrArg (t :: ·) heq⟩
    rw [Token.scan, if_neg (by simp [hblank]), if_pos hc]
    simp only [htake, ht, ok_bind, hus]
  | @name c cs ts hc _ ih =>
    obtain ⟨us, hus, heq⟩ := ih (offset + byteLength (c :: cs.takeWhile continuesName))
    refine ⟨(_, offset) :: us, ?_, congrArg (_ :: ·) heq⟩
    rw [Token.scan, if_neg (by simp [not_isBlank_of_startsName hc]),
      if_neg (by simp [not_startsNumber_of_startsName hc]), if_pos hc]
    simp only [hus, ok_bind]
  | @symbol c cs rest t ts hblank hnumber hname hsymbol _ ih =>
    obtain ⟨us, hus, heq⟩ := ih (offset + (1 + cs.length - rest.length))
    refine ⟨(t, offset) :: us, ?_, congrArg (t :: ·) heq⟩
    rw [Token.scan, if_neg (by simp [hblank]), if_neg (by simp [hnumber]), if_neg (by simp [hname])]
    split
    next heq =>
      cases hsymbol.symm.trans heq
      rw [hus, ok_bind]
    next heq => cases hsymbol.symm.trans heq

theorem exists_eof (h : Scans cs ts) : ∃ us, ts = us ++ [.eof] ∧ .eof ∉ us := by
  have cons {t : Token} {ts : List Token} (ht : t ≠ .eof) :
      (∃ us, ts = us ++ [.eof] ∧ .eof ∉ us) → ∃ us, t :: ts = us ++ [.eof] ∧ .eof ∉ us := by
    rintro ⟨us, rfl, hus⟩
    exact ⟨t :: us, rfl, by simp [ht.symm, hus]⟩
  induction h with
  | eof => exact ⟨[], rfl, by simp⟩
  | blank _ _ ih => exact ih
  | number _ _ _ ht _ ih =>
    refine cons ?_ ih
    rintro rfl
    cases isNumber_of_ofNumber (ht 0)
  | name _ _ ih => exact cons nofun ih
  | symbol _ _ _ hsymbol _ ih =>
    exact cons (of_takeSymbol? hsymbol).2.1 ih

theorem startsName_eq_false (h : Scans cs ts) (hts : ∀ u, ts.head? = some u → isIdent u = false) :
    ∀ c, cs.head? = some c → startsName c = false := by
  intro c hc
  cases hname : startsName c with
  | false => rfl
  | true =>
    cases h with
    | eof => cases hc
    | blank hblank =>
      cases hc
      rw [not_isBlank_of_startsName hname] at hblank
      cases hblank
    | number _ hnumber =>
      cases hc
      rw [not_startsNumber_of_startsName hname] at hnumber
      cases hnumber
    | name => cases hts _ rfl
    | symbol _ _ hsymbol =>
      cases hc
      rw [hname] at hsymbol
      cases hsymbol

end Scans

theorem Scans.of_isName {x : String} (hx : isName x = true)
    (hcs : ∀ c, cs.head? = some c → continuesName c = false) (h : Scans cs ts) :
    Scans (x.toList ++ cs) (.ident x :: ts) := by
  obtain ⟨c, ds, hlist, hc, hds⟩ := exists_cons_of_isName hx
  obtain ⟨htake, hdrop⟩ := Text.span_append hds hcs
  have hname : Scans (c :: (ds ++ cs))
      (.ident (String.ofList (c :: (ds ++ cs).takeWhile continuesName)) :: ts) :=
    .name hc (by rwa [hdrop])
  rwa [htake, ← hlist, String.ofList_toList, ← List.cons_append, ← hlist] at hname

end Pointwise.Token

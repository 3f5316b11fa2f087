import Pointwise.Proofs.Definition.Scanning

/-!
# Texts with other names

A name in a text is replaced unless it is called. In a text where no number runs into a name, this
replaces the names among the tokens and changes no other token.
-/

namespace Pointwise.Token

open Text (isBlank)

/-- Whether what follows a name makes it the name of a call. -/
def opensCall (cs : List Char) : Bool := (cs.dropWhile isBlank).head? == some '('

/-- The text with all names replaced that are not called. -/
def renameText (σ : String → String) : List Char → List Char
  | [] => []
  | c :: cs =>
    if startsNumber c then
      let number := takeNumber ((NumberState.start.step? c).getD .start) cs
      c :: number.1 ++ renameText σ number.2.1
    else if startsName c then
      let x := String.ofList (c :: cs.takeWhile continuesName)
      let rest := cs.dropWhile continuesName
      (if opensCall rest then x else σ x).toList ++ renameText σ rest
    else c :: renameText σ cs
termination_by cs => cs.length
decreasing_by
  · have := length_takeNumber_le ((NumberState.start.step? c).getD .start) cs
    simp only [List.length_cons]; omega
  · have := length_dropWhile_le continuesName cs
    simp only [List.length_cons]; omega
  · simp

/-- The tokens with all names replaced that are not called. -/
def renameTokens (σ : String → String) : List Token → List Token
  | .ident x :: .leftParen :: ts => .ident x :: .leftParen :: renameTokens σ ts
  | .ident x :: ts => .ident (σ x) :: renameTokens σ ts
  | t :: ts => t :: renameTokens σ ts
  | [] => []

/-- No number is followed by a name at once. -/
def Apart (ts : List Token) : Prop := ts.IsChain fun t u => isNumber t → isIdent u = false

variable {σ : String → String} {c d : Char} {cs : List Char} {t : Token} {ts : List Token}

theorem Apart.of_cons (h : Apart (t :: ts)) : Apart ts := List.IsChain.of_cons h

theorem Apart.isIdent_head (h : Apart (t :: ts)) (ht : isNumber t = true) :
    ∀ u, ts.head? = some u → isIdent u = false := by
  intro u hu
  obtain ⟨us, rfl⟩ := List.head?_eq_some_iff.1 hu
  exact (List.isChain_cons_cons.1 h).1 ht

theorem opensCall_cons (h : isBlank c = false) : opensCall (c :: cs) = true ↔ c = '(' := by
  simp [opensCall, h]

/-! ## Where a text with other names begins -/

theorem renameText_cons (hnumber : startsNumber c = false) (hname : startsName c = false) :
    renameText σ (c :: cs) = c :: renameText σ cs := by
  rw [renameText, if_neg (by simp [hnumber]), if_neg (by simp [hname])]

theorem head?_renameText (h : ∀ c, cs.head? = some c → startsName c = false) :
    (renameText σ cs).head? = cs.head? := by
  cases cs with
  | nil => rw [renameText]
  | cons c cs =>
    have hname := h c rfl
    rw [renameText]
    simp only [hname, Bool.false_eq_true, if_false]
    split <;> rfl

theorem renameText_name (hc : startsName c = true) :
    renameText σ (c :: cs) =
      (if opensCall (cs.dropWhile continuesName) then
        String.ofList (c :: cs.takeWhile continuesName)
      else σ (String.ofList (c :: cs.takeWhile continuesName))).toList ++
        renameText σ (cs.dropWhile continuesName) := by
  rw [renameText, if_neg (by simp [not_startsNumber_of_startsName hc]), if_pos hc]

theorem isName_ite (hσ : ∀ x, isName x = true → isName (σ x) = true) (p : Prop) [Decidable p]
    {x : String} (hx : isName x = true) : isName (if p then x else σ x) = true := by
  split
  · exact hx
  · exact hσ x hx

theorem head?_renameText_cases (hσ : ∀ x, isName x = true → isName (σ x) = true)
    (h : (renameText σ cs).head? = some c) : cs.head? = some c ∨ startsName c = true := by
  by_cases hcs : ∀ d, cs.head? = some d → startsName d = false
  case pos =>
    rw [head?_renameText hcs] at h
    exact .inl h
  case neg =>
    push Not at hcs
    obtain ⟨d, hd, hname⟩ := hcs
    obtain ⟨ds, rfl⟩ := List.head?_eq_some_iff.1 hd
    have hname : startsName d = true := by simpa using hname
    obtain ⟨c', cs', hlist, hc', -⟩ :=
      exists_cons_of_isName (isName_ite hσ (opensCall (ds.dropWhile continuesName) = true)
        (isName_ofList hname ds))
    rw [renameText_name hname, hlist, List.cons_append, List.head?_cons] at h
    cases h
    exact .inr hc'

/-! ## Tokens of a text with other names -/

theorem renameTokens_cons {t : Token} (ht : isIdent t = false) (ts : List Token) :
    renameTokens σ (t :: ts) = t :: renameTokens σ ts := by
  cases t with
  | ident x => cases ht
  | _ => rfl

theorem renameTokens_ident (x : String) (ts : List Token) :
    renameTokens σ (.ident x :: ts) =
      .ident (if ts.head? = some .leftParen then x else σ x) :: renameTokens σ ts := by
  cases ts with
  | nil => rfl
  | cons t ts => cases t <;> rfl

theorem takeNumber_renameText {s s' : NumberState} {digits rest : List Char}
    (h : takeNumber s cs = (digits, rest, s'))
    (hrest : ∀ c, rest.head? = some c → startsName c = false) :
    takeNumber s (digits ++ renameText σ rest) = (digits, renameText σ rest, s') := by
  induction cs generalizing s digits with
  | nil =>
    cases h
    rw [renameText]
    rfl
  | cons c cs ih =>
    rw [takeNumber] at h
    cases hstep : s.step? c with
    | some next =>
      rw [hstep] at h
      obtain ⟨rfl, hmore⟩ := Prod.mk.inj h
      rw [List.cons_append, takeNumber, hstep]
      simp only [ih (Prod.ext rfl hmore)]
    | none =>
      rw [hstep] at h
      cases h
      obtain ⟨ds, hds⟩ := List.head?_eq_some_iff.1 (head?_renameText hrest)
      rw [hds, List.nil_append, takeNumber, hstep]

theorem takeSymbol?_renameText (hσ : ∀ x, isName x = true → isName (σ x) = true) {t : Token}
    {rest : List Char} (h : takeSymbol? c cs = some (t, rest)) :
    takeSymbol? c (renameText σ cs) = some (t, renameText σ rest) := by
  rcases takeSymbol?_eq_some h with ⟨d, rfl, hpair⟩ | ⟨rfl, hsingle, hpair⟩
  · have hd : startsNumber d = false ∧ startsName d = false := by
      rcases eq_of_ofPair? hpair with rfl | rfl | rfl
      all_goals decide +kernel
    rw [renameText_cons hd.1 hd.2]
    exact takeSymbol?_of_pair hpair
  · rw [takeSymbol?_of_single, hsingle, Option.map_some]
    intro d hd
    rcases head?_renameText_cases hσ hd with hsame | hname
    · exact hpair d hsame
    · exact ofPair?_of_startsName hname

namespace Scans

theorem opensCall_iff (h : Scans cs ts) : opensCall cs = true ↔ ts.head? = some .leftParen := by
  induction h with
  | eof => decide
  | blank hc _ ih => rw [← ih, opensCall, List.dropWhile_cons_of_pos hc, opensCall]
  | number hblank hc _ ht _ =>
    rw [opensCall_cons hblank, List.head?_cons, Option.some_inj]
    refine iff_of_false ?_ ?_
    · rintro rfl
      exact absurd hc (by decide +kernel)
    · rintro rfl
      cases isNumber_of_ofNumber (ht 0)
  | name hc _ =>
    rw [opensCall_cons (not_isBlank_of_startsName hc), List.head?_cons, Option.some_inj]
    refine iff_of_false ?_ nofun
    rintro rfl
    exact absurd hc (by decide +kernel)
  | symbol hblank _ _ hsymbol _ =>
    rw [opensCall_cons hblank, List.head?_cons, Option.some_inj, (of_takeSymbol? hsymbol).2.2]

theorem rename (hσ : ∀ x, isName x = true → isName (σ x) = true) (h : Scans cs ts)
    (hapart : Apart ts) : Scans (renameText σ cs) (renameTokens σ ts) := by
  induction h with
  | eof =>
    rw [renameText]
    exact .eof
  | blank hc h ih =>
    rw [renameText_cons (not_startsNumber_of_isBlank hc) (not_startsName_of_isBlank hc)]
    exact .blank hc (ih hapart)
  | @number c cs digits rest s t ts hblank hc htake ht h ih =>
    have ht' : isNumber t = true := isNumber_of_ofNumber (ht 0)
    have hnext := h.startsName_eq_false (hapart.isIdent_head ht')
    have htake' : takeNumber _ (digits ++ renameText σ rest) = (digits, renameText σ rest, s) :=
      takeNumber_renameText htake hnext
    have htext : renameText σ (c :: cs) = c :: (digits ++ renameText σ rest) := by
      rw [renameText, if_pos hc]
      simp only [htake, List.cons_append]
    rw [htext, renameTokens_cons (isIdent_of_isNumber ht')]
    exact .number hblank hc htake' ht (ih hapart.of_cons)
  | @name c cs ts hc h ih =>
    have hnext : ∀ d, (cs.dropWhile continuesName).head? = some d → continuesName d = false := by
      intro d hd
      simpa [hd] using List.head?_dropWhile_not continuesName cs
    have hnext' : (renameText σ (cs.dropWhile continuesName)).head? =
        (cs.dropWhile continuesName).head? :=
      head?_renameText fun d hd => startsName_of_continuesName (hnext d hd)
    rw [renameText_name hc, renameTokens_ident]
    simp only [h.opensCall_iff]
    exact of_isName (isName_ite hσ _ (isName_ofList hc cs)) (hnext' ▸ hnext) (ih hapart.of_cons)
  | symbol hblank hnumber hname hsymbol h ih =>
    rw [renameText_cons hnumber hname, renameTokens_cons (of_takeSymbol? hsymbol).1]
    exact .symbol hblank hnumber hname (takeSymbol?_renameText hσ hsymbol) (ih hapart.of_cons)

end Scans

end Pointwise.Token

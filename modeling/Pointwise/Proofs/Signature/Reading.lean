import Pointwise.Proofs.Definition.Words
import Pointwise.Proofs.Signature.Padding

/-!
# Reading a signature back

A signature is read back from both of its written forms. Blanks mean nothing at the ends of a text,
around the arrow, around the type of the result and around each type between commas. No text makes
the reader look for bytes that are not there.
-/

namespace Pointwise

open Text (isBlank trim Around Spread)

namespace Signature

/-- The text of a signature, and the same one with blanks put in where they mean nothing. -/
inductive Padded : List Char → List Char → Prop where
  | loop {inputs inputs' output output' : List Char} : splitArrow? inputs = none →
      Around inputs inputs' → Around output output' →
      Padded (inputs ++ '-' :: '>' :: output) (inputs' ++ '-' :: '>' :: output')
  | types {head head' behind behind' : List Char} {parts parts' : List (List Char)} :
      splitArrow? (head ++ '(' :: ([','].intercalate parts ++ ')' :: behind)) = none →
      '(' ∉ head → parts ≠ [] → (∀ part ∈ parts, ',' ∉ part) → (∀ b ∈ behind, isBlank b = true) →
      Around head head' → List.Forall₂ Around parts parts' → Around behind behind' →
      Padded (head ++ '(' :: ([','].intercalate parts ++ ')' :: behind))
        (head' ++ '(' :: ([','].intercalate parts' ++ ')' :: behind'))

variable {whole inputs output head rest body behind cs : List Char} {s : Signature} {text : String}

/-! ## Loop strings -/

theorem mapM_elim {α β : Type} (f : α → Option β) (e : Error) (l : List α) :
    l.mapM (fun a => (f a).elim (.error e) Except.ok) = (l.mapM f).elim (.error e) .ok := by
  induction l with
  | nil => rfl
  | cons a l ih =>
    rw [List.mapM_cons, List.mapM_cons, ih]
    cases f a with
    | none => rfl
    | some b => cases l.mapM f <;> rfl

theorem readLoop_eq_ok : readLoop whole inputs output = .ok s ↔
    (trim inputs).mapM DType.ofLetter? = some s.args ∧
      ∃ c r, trim output = [c] ∧ DType.ofLetter? c = some r ∧ s.ret = some r := by
  obtain ⟨args, ret⟩ := s
  simp only [readLoop, mapM_elim]
  cases (trim inputs).mapM DType.ofLetter? with
  | none => simp
  | some args' =>
    simp only [Option.elim_some, ok_bind, Option.some.injEq]
    split
    next c hc =>
      rw [hc]
      cases hr : DType.ofLetter? c with
      | none => simp [hr]
      | some r => simp [hr, eq_comm]
    next hne =>
      refine iff_of_false nofun ?_
      rintro ⟨-, c, -, hc, -⟩
      exact hne c hc

theorem read_loop (h : splitArrow? inputs = none) :
    read (String.ofList (inputs ++ '-' :: '>' :: output)) =
      readLoop (trim (inputs ++ '-' :: '>' :: output)) (inputs.dropWhile isBlank)
        (output.rdropWhile isBlank) := by
  have htrim : trim (inputs ++ '-' :: '>' :: output) =
      inputs.dropWhile isBlank ++ '-' :: '>' :: output.rdropWhile isBlank :=
    Text.trim_between (by decide) (by decide) inputs [] output
  have hinputs : splitArrow? (inputs.dropWhile isBlank) = none :=
    splitArrow?_within (List.dropWhile_suffix _).isInfix h
  have hsplit := splitArrow?_eq_some.2 ⟨htrim, hinputs⟩
  simp only [read, String.toList_ofList, hsplit]

theorem read_loop_eq_ok (h : splitArrow? inputs = none) :
    read (String.ofList (inputs ++ '-' :: '>' :: output)) = .ok s ↔
      (trim inputs).mapM DType.ofLetter? = some s.args ∧
        ∃ c r, trim output = [c] ∧ DType.ofLetter? c = some r ∧ s.ret = some r := by
  rw [read_loop h, readLoop_eq_ok, Text.trim_dropWhile, Text.trim_rdropWhile]

/-! ## Types in parentheses -/

theorem mapM_eq_ok {α β : Type} {f : α → Except Error β} {as : List α} {bs : List β} :
    as.mapM f = .ok bs ↔ List.Forall₂ (fun a b => f a = .ok b) as bs := by
  induction as generalizing bs with
  | nil => cases bs <;> simp
  | cons a as ih =>
    simp only [List.mapM_cons, bind_eq_ok, ih, pure_eq_ok, Except.ok.injEq,
      List.forall₂_cons_left_iff]
    constructor
    · rintro ⟨b, hb, bs, hbs, rfl⟩
      exact ⟨b, bs, hb, hbs, rfl⟩
    · rintro ⟨b, bs, hb, hbs, rfl⟩
      exact ⟨b, hb, bs, hbs, rfl⟩

theorem read_type_congr {ds : List Char} (h : trim ds = trim cs) :
    DType.read ds = DType.read cs := by
  rw [DType.read, DType.read, h]

/-- The type of the result, if one is given. -/
def readReturn (head : List Char) : Except Error (Option DType) :=
  if (trim head).isEmpty then pure none else some <$> DType.read head

theorem readReturn_congr {head' : List Char} (h : trim head' = trim head) :
    readReturn head' = readReturn head := by
  rw [readReturn, readReturn, h, read_type_congr h]

theorem readArgs_around {parts parts' : List (List Char)} (hne : parts ≠ [])
    (hcommas : ∀ part ∈ parts, ',' ∉ part) (h : List.Forall₂ Around parts parts') :
    readArgs ([','].intercalate parts') = readArgs ([','].intercalate parts) := by
  have hne' : parts' ≠ [] := by
    rintro rfl
    cases h
    exact hne rfl
  have hcommas' := not_mem_around h (by decide) hcommas
  have hread : parts'.mapM DType.read = parts.mapM DType.read := by
    clear hne hne' hcommas hcommas'
    induction h with
    | nil => rfl
    | cons hpart _ ih =>
      rw [List.mapM_cons, List.mapM_cons, ih, read_type_congr (Text.trim_around hpart)]
  have hblank := (intercalate_spread h).blank_iff
  simp only [readArgs, splitCommas_intercalate hne hcommas, splitCommas_intercalate hne' hcommas',
    hread, List.isEmpty_iff, Text.trim_eq_nil_iff, hblank]

theorem takeWhile_open (h : '(' ∉ head) (rest : List Char) :
    (head ++ '(' :: rest).takeWhile (· != '(') = head ∧
      (head ++ '(' :: rest).dropWhile (· != '(') = '(' :: rest := by
  have hne : ∀ c ∈ head, (c != '(') = true := by
    intro c hc
    rw [bne_iff_ne]
    rintro rfl
    exact h hc
  exact Text.span_append hne (by simp)

theorem read_closed (htrim : trim text.toList = head ++ '(' :: rest)
    (harrow : splitArrow? (trim text.toList) = none) (hhead : '(' ∉ head) :
    read text =
      if (trim text.toList).getLast? = some ')' then
        (readReturn head).bind fun ret => (readArgs rest.dropLast).map fun args => ⟨args, ret⟩
      else .error (.invalidSignature (.malformed (String.ofList (trim text.toList)))) := by
  obtain ⟨htake, hdrop⟩ := takeWhile_open hhead rest
  rw [← htrim] at htake hdrop
  simp only [read, harrow, htake, hdrop]
  congr 1
  rw [readReturn]
  split
  · cases readArgs rest.dropLast <;> rfl
  · cases DType.read head with
    | error e => rfl
    | ok r => cases readArgs rest.dropLast <;> rfl

theorem read_unopened (harrow : splitArrow? (trim text.toList) = none)
    (hopen : '(' ∉ trim text.toList) :
    read text = .error (.invalidSignature (.malformed (String.ofList (trim text.toList)))) := by
  have hdrop : (trim text.toList).dropWhile (· != '(') = [] := by
    rw [List.dropWhile_eq_nil_iff]
    intro c hc
    rw [bne_iff_ne]
    rintro rfl
    exact hopen hc
  simp only [read, harrow, hdrop]

theorem exists_body (h : (head ++ '(' :: rest).getLast? = some ')') :
    ∃ body, rest = body ++ [')'] := by
  cases rest with
  | nil => simp at h
  | cons c rest =>
    obtain ⟨ys, hys⟩ := List.getLast?_eq_some_iff.1 (show (c :: rest).getLast? = some ')' by
      simpa using h)
    exact ⟨ys, hys⟩

theorem read_types (harrow : splitArrow? (head ++ '(' :: (body ++ ')' :: behind)) = none)
    (hhead : '(' ∉ head) (hbehind : ∀ b ∈ behind, isBlank b = true) :
    read (String.ofList (head ++ '(' :: (body ++ ')' :: behind))) =
      (readReturn head).bind fun ret => (readArgs body).map fun args => ⟨args, ret⟩ := by
  generalize htext : head ++ '(' :: (body ++ ')' :: behind) = cs at harrow ⊢
  have htrim : trim cs = head.dropWhile isBlank ++ '(' :: (body ++ [')']) := by
    rw [← htext, Text.trim_between (by decide) (by decide), Text.rdropWhile_of_blank hbehind]
  have hlast : (trim cs).getLast? = some ')' := by
    rw [htrim, ← List.cons_append, ← List.append_assoc, List.getLast?_concat]
  have hwithin := splitArrow?_within (Text.trim_within cs) harrow
  have hhead' : '(' ∉ head.dropWhile isBlank :=
    mt (fun h => (List.dropWhile_suffix _).subset h) hhead
  rw [← String.toList_ofList (l := cs)] at htrim hlast hwithin
  rw [read_closed htrim hwithin hhead', if_pos hlast, List.dropLast_concat,
    readReturn_congr (Text.trim_dropWhile head)]

/-! ## Padding -/

theorem Padded.read_eq_ok {cs ds : List Char} (h : Padded cs ds) :
    read (String.ofList ds) = .ok s ↔ read (String.ofList cs) = .ok s := by
  cases h with
  | loop harrow hinputs houtput =>
    have harrow' := splitArrow?_spread hinputs.spread harrow
    rw [read_loop_eq_ok harrow, read_loop_eq_ok harrow', Text.trim_around hinputs,
      Text.trim_around houtput]
  | types harrow hhead hne hcommas hbehind hhead' hparts hbehind' =>
    have hspread := hhead'.spread.append
      (.keep '(' ((intercalate_spread hparts).append (.keep ')' hbehind'.spread)))
    have hblank' := hbehind'.spread.blank_iff.2 hbehind
    rw [read_types harrow hhead hbehind, read_types (splitArrow?_spread hspread harrow)
      (mt (hhead'.mem_iff (by decide)).1 hhead) hblank', readReturn_congr (Text.trim_around hhead'),
      readArgs_around hne hcommas hparts]

theorem padded_self (h : read text = .ok s) : Padded text.toList text.toList := by
  obtain ⟨before, after, htext, hbefore, hafter⟩ := Text.exists_trim text.toList
  cases hsplit : splitArrow? (trim text.toList) with
  | some p =>
    obtain ⟨inputs, output⟩ := p
    obtain ⟨hcs, hinputs⟩ := splitArrow?_eq_some.1 hsplit
    have hblanks : Spread inputs (before ++ inputs) :=
      (Text.spread_of_blank hbefore).append (.refl inputs)
    rw [hcs] at htext
    rw [htext, List.append_assoc, List.cons_append, List.cons_append, ← List.append_assoc before]
    exact .loop (splitArrow?_spread hblanks hinputs) (.refl _) (.refl _)
  | none =>
    have harrow := splitArrow?_spread (Text.around_trim text.toList).spread hsplit
    by_cases hopen : '(' ∈ trim text.toList
    · obtain ⟨head, rest, htrim, hhead⟩ := List.eq_append_cons_of_mem hopen
      rw [read_closed htrim hsplit hhead] at h
      split at h
      next hlast =>
        rw [htrim] at hlast
        obtain ⟨body, rfl⟩ := exists_body hlast
        have hhead' : '(' ∉ before ++ head := by
          rw [List.mem_append, not_or]
          exact ⟨fun hmem => absurd (hbefore _ hmem) (by decide), hhead⟩
        rw [htrim] at htext
        have hform : text.toList = before ++ head ++ '(' ::
            ([','].intercalate (splitCommas body) ++ ')' :: after) := by
          rw [htext, intercalate_splitCommas]
          simp
        rw [hform] at harrow ⊢
        exact .types harrow hhead' (splitCommas_ne_nil body) (not_mem_splitCommas body) hafter
          (.refl _) (List.forall₂_same.2 fun part _ => .refl part) (.refl _)
      next => cases h
    · rw [read_unopened hsplit hopen] at h
      cases h

/-! ## Both forms are read back -/

theorem mapM_ofLetter?_letter (args : List DType) :
    (args.map DType.letter).mapM DType.ofLetter? = some args := by
  induction args with
  | nil => rfl
  | cons t args ih => rw [List.map_cons, List.mapM_cons, ih, DType.ofLetter?_letter]; rfl

theorem read_loopString {r : DType} (h : s.ret = some r) : read s.loopString = .ok s := by
  have hletters : ∀ c ∈ s.args.map DType.letter, isBlank c = false ∧ c ≠ '-' := by
    intro c hc
    obtain ⟨t, -, rfl⟩ := List.mem_map.1 hc
    cases t <;> decide
  have harrow : splitArrow? (s.args.map DType.letter) = none :=
    splitArrow?_of_not_mem fun hmem => (hletters _ hmem).2 rfl
  rw [loopString, h, Option.elim_some]
  refine (read_loop_eq_ok harrow).2 ⟨?_, r.letter, r, ?_, r.ofLetter?_letter, h⟩
  · rw [Text.trim_of_not_blank fun c hc => (hletters c hc).1, mapM_ofLetter?_letter]
  · cases r <;> decide

theorem trim_name (t : DType) : trim t.name.toList = t.name.toList := by cases t <;> decide

theorem read_type_name (t : DType) : DType.read t.name.toList = .ok t := by
  rw [DType.read, trim_name, String.ofList_toList, DType.ofName?_name]

/-- The names of some types, each but the first after a blank. -/
def spacedNames : List DType → List (List Char)
  | [] => [[]]
  | t :: ts => t.name.toList :: ts.map fun u => ' ' :: u.name.toList

theorem intercalate_spacedNames (args : List DType) :
    [','].intercalate (spacedNames args) = (", ".intercalate (args.map DType.name)).toList := by
  rw [String.toList_intercalate, List.map_map]
  cases args with
  | nil => rfl
  | cons t args =>
    induction args generalizing t with
    | nil => rfl
    | cons u args ih =>
      have hblank : [','].intercalate (spacedNames (t :: u :: args)) =
          t.name.toList ++ [','] ++ ' ' :: [','].intercalate (spacedNames (u :: args)) := by
        rw [spacedNames, List.map_cons, List.intercalate_cons_cons, List.intercalate_cons_cons_left,
          spacedNames]
      rw [hblank, ih, List.map_cons, List.map_cons, List.map_cons, List.intercalate_cons_cons]
      simp

theorem not_mem_name (t : DType) :
    ',' ∉ t.name.toList ∧ '-' ∉ t.name.toList ∧ '(' ∉ t.name.toList := by
  cases t <;> decide

theorem not_mem_spacedNames {c : Char} (hc : c ≠ ' ') (args : List DType)
    (h : ∀ t : DType, c ∉ t.name.toList) : ∀ part ∈ spacedNames args, c ∉ part := by
  cases args with
  | nil => simp [spacedNames]
  | cons t args =>
    rw [spacedNames, List.forall_mem_cons, List.forall_mem_map]
    refine ⟨h t, fun u _ => ?_⟩
    rw [List.mem_cons, not_or]
    exact ⟨hc, h u⟩

theorem readArgs_spacedNames (args : List DType) :
    readArgs ([','].intercalate (spacedNames args)) = .ok args := by
  cases args with
  | nil => rfl
  | cons t args =>
    have hcommas : ∀ part ∈ spacedNames (t :: args), ',' ∉ part :=
      not_mem_spacedNames (by decide) _ fun u => (not_mem_name u).1
    have hnonblank : trim ([','].intercalate (spacedNames (t :: args))) ≠ [] := by
      have hany : t.name.toList.any (!isBlank ·) = true := by cases t <;> decide
      obtain ⟨c, hc, hblank⟩ := List.any_eq_true.1 hany
      rw [ne_eq, Text.trim_eq_nil_iff]
      intro hall
      rw [hall c (mem_intercalate_head hc _)] at hblank
      cases hblank
    have hread : (spacedNames (t :: args)).mapM DType.read = .ok (t :: args) := by
      refine mapM_eq_ok.2 (.cons (read_type_name t) ?_)
      rw [List.forall₂_map_left_iff, List.forall₂_same]
      intro u _
      have haround : Around u.name.toList (' ' :: u.name.toList) :=
        ⟨[' '], [], List.all_eq_true.1 rfl, nofun, by simp⟩
      rw [read_type_congr (Text.trim_around haround), read_type_name]
    have hne : spacedNames (t :: args) ≠ [] := List.cons_ne_nil _ _
    rw [readArgs, if_neg (by simpa using hnonblank), splitCommas_intercalate hne hcommas, hread]

theorem readReturn_name (ret : Option DType) :
    readReturn (ret.elim "" DType.name).toList = .ok ret := by
  cases ret with
  | none => rfl
  | some r => cases r <;> decide

theorem read_text (s : Signature) : read s.text = .ok s := by
  have htext : s.text = String.ofList ((s.ret.elim "" DType.name).toList ++
      '(' :: ([','].intercalate (spacedNames s.args) ++ ')' :: [])) := by
    rw [text, ← String.toList_inj, String.toList_ofList, intercalate_spacedNames]
    simp
  have hhead : '-' ∉ (s.ret.elim "" DType.name).toList ∧
      '(' ∉ (s.ret.elim "" DType.name).toList := by
    cases s.ret with
    | none => simp
    | some r => exact (not_mem_name r).2
  have hbody : '-' ∉ [','].intercalate (spacedNames s.args) :=
    not_mem_intercalate (by decide)
      (not_mem_spacedNames (by decide) _ fun t => (not_mem_name t).2.1)
  rw [htext, read_types (splitArrow?_of_not_mem (by simp [hhead.1, hbody])) hhead.2
    (List.forall_mem_nil _),
    readArgs_spacedNames, readReturn_name]
  rfl

end Signature

end Pointwise

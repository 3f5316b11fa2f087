import Pointwise.Proofs.Signature.Reading

/-!
# Signatures by bytes

The parentheses of a signature can be looked for by the bytes before them. The slices that are taken
then lie within the text and end between characters, so no text is refused for another reason than
the signature in it.
-/

namespace Pointwise

open Text (isBlank trim Around)
open Token (byteLength byteLength_cons byteLength_append byteLength_pos)

namespace Signature

/-- The bytes before the first opening parenthesis. -/
def findOpen? : List Char → Option Nat
  | [] => none
  | c :: cs => if c = '(' then some 0 else (findOpen? cs).map (c.utf8Size + ·)

/-- What follows the first bytes, if they are the bytes of some characters. -/
def skip? : Nat → List Char → Option (List Char)
  | 0, cs => some cs
  | _ + 1, [] => none
  | n + 1, c :: cs => if c.utf8Size ≤ n + 1 then skip? (n + 1 - c.utf8Size) cs else none

/-- The first bytes, if they are the bytes of some characters. -/
def keep? : Nat → List Char → Option (List Char)
  | 0, _ => some []
  | _ + 1, [] => none
  | n + 1, c :: cs =>
    if c.utf8Size ≤ n + 1 then (keep? (n + 1 - c.utf8Size) cs).map (c :: ·) else none

/-- The characters from one byte to another, if both are in order, within the text and between
characters. -/
def slice? (start stop : Nat) (cs : List Char) : Option (List Char) :=
  if start ≤ stop then (skip? start cs).bind (keep? (stop - start)) else none

/-- Reading where the parentheses are found by their bytes. No result means a slice out of range. -/
def readSliced? (text : String) : Option (Except Error Signature) :=
  let cs := trim text.toList
  let malformed := Except.error (.invalidSignature (.malformed (String.ofList cs)))
  match splitArrow? cs with
  | some (inputs, output) => some (readLoop cs inputs output)
  | none =>
    match findOpen? cs with
    | none => some malformed
    | some n =>
      if cs.getLast? = some ')' then
        (slice? 0 n cs).bind fun head =>
          (slice? (n + 1) (byteLength cs - 1) cs).map fun body =>
            (readReturn head).bind fun ret => (readArgs body).map fun args => ⟨args, ret⟩
      else some malformed

variable {cs ds : List Char} {text : String}

/-! ## Slices -/

theorem findOpen?_of_not_mem (h : '(' ∉ cs) : findOpen? cs = none := by
  induction cs with
  | nil => rfl
  | cons c cs ih =>
    rw [List.mem_cons, not_or] at h
    rw [findOpen?, if_neg (Ne.symm h.1), ih h.2, Option.map_none]

theorem findOpen?_append (h : '(' ∉ cs) (ds : List Char) :
    findOpen? (cs ++ '(' :: ds) = some (byteLength cs) := by
  induction cs with
  | nil => rfl
  | cons c cs ih =>
    rw [List.mem_cons, not_or] at h
    rw [List.cons_append, findOpen?, if_neg (Ne.symm h.1), ih h.2, Option.map_some, byteLength_cons]

theorem exists_byteLength_cons (c : Char) (cs : List Char) : ∃ n, byteLength (c :: cs) = n + 1 ∧
    c.utf8Size ≤ n + 1 ∧ n + 1 - c.utf8Size = byteLength cs := by
  have := c.utf8Size_pos
  exact ⟨c.utf8Size + byteLength cs - 1, by rw [byteLength_cons]; omega, by omega, by omega⟩

theorem skip?_append (cs ds : List Char) : skip? (byteLength cs) (cs ++ ds) = some ds := by
  induction cs with
  | nil => cases ds <;> rfl
  | cons c cs ih =>
    obtain ⟨n, hn, hle, hsub⟩ := exists_byteLength_cons c cs
    rw [hn, List.cons_append, skip?, if_pos hle, hsub, ih]

theorem keep?_append (cs ds : List Char) : keep? (byteLength cs) (cs ++ ds) = some cs := by
  induction cs with
  | nil => cases ds <;> rfl
  | cons c cs ih =>
    obtain ⟨n, hn, hle, hsub⟩ := exists_byteLength_cons c cs
    rw [hn, List.cons_append, keep?, if_pos hle, hsub, ih, Option.map_some]

theorem slice?_append (before cs after : List Char) :
    slice? (byteLength before) (byteLength before + byteLength cs) (before ++ (cs ++ after)) =
      some cs := by
  rw [slice?, if_pos (Nat.le_add_right _ _), skip?_append, Option.bind_some,
    Nat.add_sub_cancel_left, keep?_append]

theorem slice?_head (head rest : List Char) :
    slice? 0 (byteLength head) (head ++ rest) = some head := by
  have h := slice?_append [] head rest
  rwa [byteLength, List.map_nil, List.sum_nil, Nat.zero_add] at h

theorem slice?_body (head body : List Char) :
    slice? (byteLength head + 1) (byteLength (head ++ '(' :: (body ++ [')'])) - 1)
      (head ++ '(' :: (body ++ [')'])) = some body := by
  have hstart : byteLength (head ++ ['(']) = byteLength head + 1 := byteLength_append _ _
  have hlast : byteLength [')'] = 1 := rfl
  have hopen : '('.utf8Size = 1 := rfl
  have hstop : byteLength (head ++ '(' :: (body ++ [')'])) - 1 =
      byteLength (head ++ ['(']) + byteLength body := by
    rw [hstart, byteLength_append, byteLength_cons, byteLength_append, hlast, hopen]
    omega
  have h := slice?_append (head ++ ['(']) body [')']
  rwa [← hstop, hstart, List.append_assoc, List.singleton_append] at h

theorem readSliced?_eq (text : String) : readSliced? text = some (read text) := by
  cases hsplit : splitArrow? (trim text.toList) with
  | some p => simp only [readSliced?, read, hsplit]
  | none =>
    by_cases hopen : '(' ∈ trim text.toList
    · obtain ⟨head, rest, htrim, hhead⟩ := List.eq_append_cons_of_mem hopen
      have hfind := findOpen?_append hhead rest
      rw [← htrim] at hfind
      rw [read_closed htrim hsplit hhead]
      simp only [readSliced?, hsplit, hfind]
      split
      next hlast =>
        rw [htrim] at hlast ⊢
        obtain ⟨body, rfl⟩ := exists_body hlast
        rw [slice?_head, slice?_body, List.dropLast_concat, Option.bind_some, Option.map_some]
      next => rfl
    · rw [read_unopened hsplit hopen]
      simp only [readSliced?, hsplit, findOpen?_of_not_mem hopen]

/-! ## Errors -/

/-- Whether an error says that a signature cannot be read. -/
def Refuses (e : Error) : Prop := ∃ cause, e = .invalidSignature cause

theorem elim_ends {α : Type} (x : Option α) (cause : SignatureError) :
    Ends (x.elim (.error (.invalidSignature cause)) .ok) (fun _ => True) Refuses := by
  cases x with
  | none => exact .error ⟨cause, rfl⟩
  | some a => exact .ok trivial

theorem read_type_ends (cs : List Char) : Ends (DType.read cs) (fun _ => True) Refuses := by
  rw [DType.read]
  split
  · exact .ok trivial
  · split
    · exact elim_ends _ _
    · exact .error ⟨_, rfl⟩

theorem readLoop_ends (whole inputs output : List Char) :
    Ends (readLoop whole inputs output) (fun _ => True) Refuses := by
  refine (Ends.mapM (fun c _ => elim_ends _ _)).bind fun args _ => ?_
  split
  · exact (elim_ends _ _).bind fun r _ => .ok trivial
  · exact .error ⟨_, rfl⟩

theorem readReturn_ends (head : List Char) :
    Ends (readReturn head) (fun _ => True) Refuses := by
  rw [readReturn]
  split
  · exact .ok trivial
  · exact (read_type_ends head).map fun _ _ => trivial

theorem readArgs_ends (body : List Char) : Ends (readArgs body) (fun _ => True) Refuses := by
  rw [readArgs]
  split
  · exact .ok trivial
  · exact Ends.mapM fun part _ => read_type_ends part

theorem read_ends (text : String) : Ends (read text) (fun _ => True) Refuses := by
  cases hsplit : splitArrow? (trim text.toList) with
  | some p =>
    rw [read, hsplit]
    exact readLoop_ends _ _ _
  | none =>
    by_cases hopen : '(' ∈ trim text.toList
    · obtain ⟨head, rest, htrim, hhead⟩ := List.eq_append_cons_of_mem hopen
      rw [read_closed htrim hsplit hhead]
      split
      · exact (readReturn_ends head).bind fun ret _ =>
          (readArgs_ends _).map fun args _ => trivial
      · exact .error ⟨_, rfl⟩
    · rw [read_unopened hsplit hopen]
      exact .error ⟨_, rfl⟩

/--
A signature is read back from its text and, if its return type is given, from its loop string. What
is read from a text has the form of a signature, and more blanks around the whole text, around the
arrow or around the types between parentheses and commas do not change it. Any other text is refused
as a signature, and no slice is taken out of range.
-/
theorem read_round_trip :
    (∀ s : Signature, read s.text = .ok s) ∧
    (∀ (s : Signature) (r : DType), s.ret = some r → read s.loopString = .ok s) ∧
    (∀ (text : String) (s : Signature), read text = .ok s →
      Padded text.toList text.toList ∧
      ∀ text' : String, Around text.toList text'.toList ∨ Padded text.toList text'.toList →
        read text' = .ok s) ∧
    ∀ text : String, readSliced? text = some (read text) ∧
      ((∃ s, read text = .ok s) ∨ ∃ cause, read text = .error (.invalidSignature cause)) := by
  refine ⟨read_text, fun s r => read_loopString, fun text s h => ⟨padded_self h, ?_⟩,
    fun text => ⟨readSliced?_eq text, ?_⟩⟩
  · rintro text' (haround | hpadded)
    · have htrim := Text.trim_around haround
      simpa only [read, htrim] using h
    · have hread := hpadded.read_eq_ok (s := s)
      rw [String.ofList_toList, String.ofList_toList] at hread
      exact hread.2 h
  · cases hread : read text with
    | ok s => exact .inl ⟨s, rfl⟩
    | error e =>
      obtain ⟨cause, rfl⟩ := (read_ends text).of_error hread
      exact .inr ⟨cause, rfl⟩

/-- The two forms of one signature, each with blanks in it. -/
theorem read_round_trip_padded :
    read (Signature.text ⟨[.int32, .uint8], some .float64⟩) =
      .ok ⟨[.int32, .uint8], some .float64⟩ ∧
    read (loopString ⟨[.int32, .uint8], some .float64⟩) = .ok ⟨[.int32, .uint8], some .float64⟩ ∧
    read "iB\t-> d\n" = .ok ⟨[.int32, .uint8], some .float64⟩ ∧
    read "f8 ( i4 ,B\t) " = .ok ⟨[.int32, .uint8], some .float64⟩ ∧
    readSliced? "f8(é)" = some (read "f8(é)") := by
  have haround : ∀ before cs behind : List Char, before.all isBlank = true →
      behind.all isBlank = true → Around cs (before ++ (cs ++ behind)) :=
    fun before cs behind hbefore hbehind =>
      ⟨before, behind, List.all_eq_true.1 hbefore, List.all_eq_true.1 hbehind, rfl⟩
  have hloop : Padded "iB->d".toList "iB\t-> d\n".toList := by
    have hinputs := haround [] ['i', 'B'] ['\t'] rfl rfl
    have h := Padded.loop rfl hinputs (haround [' '] ['d'] ['\n'] rfl rfl)
    simpa using h
  have htypes : Padded "f8(i4,B)".toList "f8 ( i4 ,B\t) ".toList := by
    have hparts : List.Forall₂ Around [['i', '4'], ['B']] _ :=
      .cons (haround [' '] _ [' '] rfl rfl) (.cons (haround [] _ ['\t'] rfl rfl) .nil)
    have h := Padded.types rfl (by decide) (by decide) (by decide) (List.forall_mem_nil _)
      (haround [] ['f', '8'] [' '] rfl rfl) hparts (haround [] [] [' '] rfl rfl)
    simpa using h
  exact ⟨read_round_trip.1 _, read_round_trip.2.1 _ .float64 rfl,
    (read_round_trip.2.2.1 "iB->d" _ (by decide +kernel)).2 _ (.inr hloop),
    (read_round_trip.2.2.1 "f8(i4,B)" _ (by decide +kernel)).2 _ (.inr htypes),
    (read_round_trip.2.2.2 _).1⟩

end Signature

end Pointwise

import Pointwise.Decimal.Read
import Pointwise.Error
import Pointwise.Text.Blank
import Pointwise.Text.Letter
import Pointwise.Text.Numeral

/-!
# Cutting a definition into tokens

Blanks separate tokens and mean nothing else. A token is as long as it can be.
-/

namespace Pointwise.Token

open Text (isBlank isLetter isNumeral)

def startsName (c : Char) : Bool := isLetter c || c == '_'

def continuesName (c : Char) : Bool := isLetter c || isNumeral c || c == '_'

def startsNumber (c : Char) : Bool := Decimal.isDigit c || c == '.'

/-- What a number has had so far. -/
structure NumberState where
  /-- A point or an exponent, so that it is no integer. -/
  isFloat : Bool
  exponent : Bool
  /-- The last character is the letter of the exponent, so that a sign may follow. -/
  signAllowed : Bool
deriving DecidableEq, Repr

namespace NumberState

def start : NumberState := ⟨false, false, false⟩

/-- The state after one more character, or `none` if the number ends before it. -/
def step? (s : NumberState) (c : Char) : Option NumberState :=
  if Decimal.isDigit c then some { s with signAllowed := false }
  else if c = '.' ∧ !s.isFloat then some ⟨true, s.exponent, false⟩
  else if (c = 'e' ∨ c = 'E') ∧ !s.exponent then some ⟨true, true, true⟩
  else if (c = '+' ∨ c = '-') ∧ s.signAllowed then some { s with signAllowed := false }
  else none

end NumberState

/-- The characters that still belong to a number, what follows them, and the last state. -/
def takeNumber (s : NumberState) : List Char → List Char × List Char × NumberState
  | [] => ([], [], s)
  | c :: cs =>
    match s.step? c with
    | none => ([], c :: cs, s)
    | some s' =>
      let more := takeNumber s' cs
      (c :: more.1, more.2)

/-- The greatest integer that a token can hold. -/
def maxInt : Nat := 2 ^ (63 : Nat) - 1

def ofNumber (cs : List Char) (isFloat : Bool) (offset : Nat) : Except Error Token :=
  if isFloat then
    match Decimal.read? cs with
    | some d => .ok (.float (BitVec.ofNat 64 (d.toMagnitude Binary.double)))
    | none => .error (.parse (.invalidFloat (String.ofList cs) offset))
  else
    let n := Decimal.ofDigits cs
    if n ≤ maxInt then .ok (.int n)
    else .error (.parse (.integerTooLarge (String.ofList cs) offset))

def ofPair? : Char → Char → Option Token
  | '=', '=' => some .eq
  | '!', '=' => some .ne
  | '<', '=' => some .le
  | '>', '=' => some .ge
  | '&', '&' => some .and
  | '|', '|' => some .or
  | _, _ => none

def ofSingle? : Char → Option Token
  | '=' => some .assign
  | '!' => some .not
  | '<' => some .lt
  | '>' => some .gt
  | '+' => some .plus
  | '-' => some .minus
  | '*' => some .star
  | '/' => some .slash
  | '(' => some .leftParen
  | ')' => some .rightParen
  | ',' => some .comma
  | _ => none

/-- The operator or bracket that starts with `c`, and what follows it. -/
def takeSymbol? (c : Char) (cs : List Char) : Option (Token × List Char) :=
  match cs with
  | d :: rest =>
    match ofPair? c d with
    | some t => some (t, rest)
    | none => (ofSingle? c).map (·, cs)
  | [] => (ofSingle? c).map (·, cs)

/-- Bytes that characters take in UTF-8. -/
def byteLength (cs : List Char) : Nat := (cs.map Char.utf8Size).sum

theorem length_dropWhile_le {α : Type} (p : α → Bool) (l : List α) :
    (l.dropWhile p).length ≤ l.length := (List.dropWhile_suffix p).length_le

theorem length_takeNumber_le (s : NumberState) (cs : List Char) :
    (takeNumber s cs).2.1.length ≤ cs.length := by
  induction cs generalizing s with
  | nil => simp [takeNumber]
  | cons c cs ih =>
    unfold takeNumber
    split
    · simp
    · next s' _ => have := ih s'; simp only [List.length_cons]; omega

theorem length_takeSymbol?_le {c : Char} {cs rest : List Char} {t : Token}
    (h : takeSymbol? c cs = some (t, rest)) : rest.length ≤ cs.length := by
  unfold takeSymbol? at h
  split at h
  · split at h
    · cases h; simp
    · obtain ⟨_, _, h⟩ := Option.map_eq_some_iff.1 h; cases h; simp
  · obtain ⟨_, _, h⟩ := Option.map_eq_some_iff.1 h; cases h; simp

/-- The tokens of the characters from a byte offset on, with the end of the text as the last one. -/
def scan (offset : Nat) : List Char → Except Error (List PlacedToken)
  | [] => .ok [(.eof, offset)]
  | c :: cs =>
    if isBlank c then scan (offset + c.utf8Size) cs
    else if startsNumber c then do
      let number := takeNumber ((NumberState.start.step? c).getD .start) cs
      let t ← ofNumber (c :: number.1) number.2.2.isFloat offset
      let more ← scan (offset + byteLength (c :: number.1)) number.2.1
      .ok ((t, offset) :: more)
    else if startsName c then do
      let name := c :: cs.takeWhile continuesName
      let more ← scan (offset + byteLength name) (cs.dropWhile continuesName)
      .ok ((.ident (String.ofList name), offset) :: more)
    else
      match _h : takeSymbol? c cs with
      | some (t, rest) => do
        let more ← scan (offset + (1 + cs.length - rest.length)) rest
        .ok ((t, offset) :: more)
      | none => .error (.parse (.unexpectedChar c offset))
termination_by cs => cs.length
decreasing_by
  · simp
  · have := length_takeNumber_le ((NumberState.start.step? c).getD .start) cs
    simp only [List.length_cons]; omega
  · have := length_dropWhile_le continuesName cs
    simp only [List.length_cons]; omega
  · have := length_takeSymbol?_le _h
    simp only [List.length_cons]; omega

def scanAll (text : String) : Except Error (List PlacedToken) := scan 0 text.toList

end Pointwise.Token

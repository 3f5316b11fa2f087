import Pointwise.Error
import Pointwise.Text.Blank

/-!
# Reading types and signatures

The two written forms of a signature: types in parentheses and loop strings.
-/

namespace Pointwise

/-- A type by name or by letter, with blanks around it. -/
def DType.read (cs : List Char) : Except Error DType :=
  let t := Text.trim cs
  let unknown := Error.invalidSignature (.unknownType (String.ofList t))
  match ofName? (String.ofList t) with
  | some d => .ok d
  | none =>
    match t with
    | [c] => (ofLetter? c).elim (.error unknown) .ok
    | _ => .error unknown

namespace Signature

/-- What stands before and after the first arrow. -/
def splitArrow? : List Char → Option (List Char × List Char)
  | [] => none
  | '-' :: '>' :: r => some ([], r)
  | c :: r => (splitArrow? r).map fun (before, after) => (c :: before, after)

/-- The parts between commas, of which there is always at least one. -/
def splitCommas : List Char → List (List Char)
  | [] => [[]]
  | ',' :: r => [] :: splitCommas r
  | c :: r =>
    match splitCommas r with
    | [] => [[c]]
    | part :: parts => (c :: part) :: parts

/-- A loop string, already cut at its arrow: a letter for every input and one for the output. -/
def readLoop (whole inputs output : List Char) : Except Error Signature := do
  let letter (c : Char) : Except Error DType :=
    (DType.ofLetter? c).elim (.error (.invalidSignature (.malformed (String.ofList whole)))) .ok
  let args ← (Text.trim inputs).mapM letter
  match Text.trim output with
  | [c] => .ok ⟨args, some (← letter c)⟩
  | _ => .error (.invalidSignature (.severalOutputs (String.ofList whole)))

/-- The types between the parentheses. -/
def readArgs (body : List Char) : Except Error (List DType) :=
  if (Text.trim body).isEmpty then .ok [] else (splitCommas body).mapM DType.read

/-- A signature in either form, with blanks around it. -/
def read (text : String) : Except Error Signature :=
  let cs := Text.trim text.toList
  match splitArrow? cs with
  | some (inputs, output) => readLoop cs inputs output
  | none =>
    let head := cs.takeWhile (· != '(')
    match cs.dropWhile (· != '(') with
    | [] => .error (.invalidSignature (.malformed (String.ofList cs)))
    | _ :: rest =>
      if cs.getLast? = some ')' then do
        let ret ← if (Text.trim head).isEmpty then pure none else some <$> DType.read head
        let args ← readArgs rest.dropLast
        .ok ⟨args, ret⟩
      else .error (.invalidSignature (.malformed (String.ofList cs)))

end Signature

end Pointwise

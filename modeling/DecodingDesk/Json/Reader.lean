import DecodingDesk.Json.Value
import DecodingDesk.Json.Quoted
/-!
# Reading JSON

The strict grammar: no comments, no trailing commas, no leading zeros, and nothing
after the value but blanks.  The recursion is bounded by a number that no text of
the given length uses up.
-/

namespace DecodingDesk.Json

open Decimal (Numeral)

/-- The four characters that may stand between the parts of a value. -/
def isSpace (c : Char) : Bool :=
  c = ' ' || c = '\n' || c = '\t' || c = '\r'

def skipSpace (cs : List Char) : List Char :=
  cs.dropWhile isSpace

/-- Reads a string behind its opening quote. -/
def readString (cs : List Char) : Option (Option String × List Char) :=
  (Quoted.read? cs).map fun r => (Quoted.text? r.1, r.2)

def readName (cs : List Char) : Option (Option String × List Char) :=
  match skipSpace cs with
  | '"' :: rest =>
    match readString rest with
    | none => none
    | some (name, rest) =>
      match skipSpace rest with
      | ':' :: rest => some (name, rest)
      | _ => none
  | _ => none

mutual

def readValue : Nat → List Char → Option (Value × List Char)
  | 0, _ => none
  | fuel + 1, cs =>
    match skipSpace cs with
    | 'n' :: 'u' :: 'l' :: 'l' :: rest => some (.null, rest)
    | 't' :: 'r' :: 'u' :: 'e' :: rest => some (.bool true, rest)
    | 'f' :: 'a' :: 'l' :: 's' :: 'e' :: rest => some (.bool false, rest)
    | '"' :: rest => (readString rest).map fun r => (.str r.1, r.2)
    | '[' :: rest =>
      match skipSpace rest with
      | ']' :: rest => some (.arr [], rest)
      | rest =>
        match readValue fuel rest with
        | none => none
        | some (v, rest) => (readItems fuel rest).map fun r => (.arr (v :: r.1), r.2)
    | '{' :: rest =>
      match skipSpace rest with
      | '}' :: rest => some (.obj [], rest)
      | rest => (readMember fuel rest).map fun r => (.obj r.1, r.2)
    | rest => (Numeral.read? rest).map fun r => (.num r.1, r.2)

/-- Reads what follows an item: the end of the array, or a comma and the other items. -/
def readItems : Nat → List Char → Option (List Value × List Char)
  | 0, _ => none
  | fuel + 1, cs =>
    match skipSpace cs with
    | ']' :: rest => some ([], rest)
    | ',' :: rest =>
      match readValue fuel rest with
      | none => none
      | some (v, rest) => (readItems fuel rest).map fun r => (v :: r.1, r.2)
    | _ => none

/-- Reads a member and what follows it. -/
def readMember : Nat → List Char → Option (List (Option String × Value) × List Char)
  | 0, _ => none
  | fuel + 1, cs =>
    match readName cs with
    | none => none
    | some (name, rest) =>
      match readValue fuel rest with
      | none => none
      | some (v, rest) => (readMembers fuel rest).map fun r => ((name, v) :: r.1, r.2)

/-- Reads what follows a member: the end of the object, or a comma and the other members. -/
def readMembers : Nat → List Char → Option (List (Option String × Value) × List Char)
  | 0, _ => none
  | fuel + 1, cs =>
    match skipSpace cs with
    | '}' :: rest => some ([], rest)
    | ',' :: rest => readMember fuel rest
    | _ => none

end

def parse? (s : String) : Option Value :=
  let cs := s.toList
  match readValue (cs.length + 1) cs with
  | none => none
  | some (v, rest) =>
    if skipSpace rest = [] then some v else none

end DecodingDesk.Json

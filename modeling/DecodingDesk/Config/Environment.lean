import DecodingDesk.Config.Setting
import DecodingDesk.Text.Blank
import DecodingDesk.Json.Quoted
/-!
# Settings in the environment

A variable counts if its name has the prefix, in any case.  The rest of the name is
the key; dots in it nest.  A value may be a truth value, a number, a quoted text, a
list in brackets or a table in braces.  A value that is none of these as a whole is
a text as it stands.
-/

namespace DecodingDesk.Config

/-- The names of variables that count start with this, in any case. -/
def namePrefix : String := "TANDEM_"

/-- The parts of the key that a variable sets. -/
def keyParts? (name : String) : Option (List String) :=
  let chars := Text.trimChars name.toList
  let size := namePrefix.length
  if (chars.take size).map Char.toLower ≠ namePrefix.toList.map Char.toLower then none
  else
    let key := (Text.trimChars (chars.drop size)).map Char.toLower
    let parts := key.splitOn '.'
    if parts.any List.isEmpty then none else some (parts.map String.ofList)

namespace Environment

def isSpace (c : Char) : Bool :=
  c = ' ' || c = '\t' || c = '\n' || c = '\x0c' || c = '\r'

def skipSpace (cs : List Char) : List Char :=
  cs.dropWhile isSpace

def isSeparator (c : Char) : Bool :=
  c = ',' || c = '{' || c = '}' || c = '[' || c = ']'

/-- Whether a character may stand in a table's key without quotes. -/
def isKeyChar (c : Char) : Bool :=
  c.isAlphanum || c = '_' || c = '-'

def unescape? : Char → Option Char
  | 'b' => some '\x08'
  | 't' => some '\t'
  | 'n' => some '\n'
  | 'f' => some '\x0c'
  | 'r' => some '\r'
  | '"' => some '"'
  | '\\' => some '\\'
  | _ => none

def charOf? (n : Nat) : Option Char :=
  if h : n.isValidChar then some (Char.ofNatAux n h) else none

def consChar (c : Char) (rest : Option (List Char × List Char)) :
    Option (List Char × List Char) :=
  rest.map fun r => (c :: r.1, r.2)

def readQuoted : List Char → Option (List Char × List Char)
  | [] => none
  | '"' :: rest => some ([], rest)
  | '\\' :: 'u' :: a :: b :: c :: d :: rest =>
    match (Json.Quoted.hexValue4? a b c d).bind charOf? with
    | none => none
    | some x => consChar x (readQuoted rest)
  | '\\' :: 'U' :: a :: b :: c :: d :: e :: f :: g :: h :: rest =>
    match Json.Quoted.hexValue4? a b c d, Json.Quoted.hexValue4? e f g h with
    | some m, some n =>
      match charOf? (m * 65536 + n) with
      | none => none
      | some x => consChar x (readQuoted rest)
    | _, _ => none
  | '\\' :: e :: rest =>
    match unescape? e with
    | none => none
    | some x => consChar x (readQuoted rest)
  | c :: rest =>
    if (c.toNat < 32 ∧ c ≠ '\t') ∨ c.toNat = 127 then none else consChar c (readQuoted rest)

/-- Digits, of which there is at least one. -/
def areDigits (cs : List Char) : Bool :=
  !cs.isEmpty && cs.all Char.isDigit

def dropSign : List Char → List Char
  | '+' :: rest => rest
  | '-' :: rest => rest
  | cs => cs

/-- Whether the characters write a number with a point: digits on at least one of its sides,
perhaps a sign in front and perhaps a power of ten behind. -/
def isDecimal (cs : List Char) : Bool :=
  let body := dropSign cs
  let whole := body.takeWhile Char.isDigit
  match body.dropWhile Char.isDigit with
  | '.' :: rest =>
    let fraction := rest.takeWhile Char.isDigit
    let power := rest.dropWhile Char.isDigit
    !(whole.isEmpty && fraction.isEmpty) &&
      match power with
      | [] => true
      | c :: exponent => (c = 'e' || c = 'E') && areDigits (dropSign exponent)
  | _ => false

def bare (cs : List Char) : Setting :=
  let digits := dropSign cs
  let value : Nat := digits.foldl (fun n c => 10 * n + (c.toNat - 48)) 0
  if isDecimal cs then .other
  else if areDigits digits then
    if cs.head? = some '-' then
      if value = 0 then .count 0
      else if value ≤ UInt64.size / 2 then .other
      else .text (String.ofList cs)
    else if value < UInt64.size then .count (UInt64.ofNat value)
    else .text (String.ofList cs)
  else .text (String.ofList cs)

/-- Reads a table's key and the sign behind it. -/
def readKey (cs : List Char) : Option (List Char) :=
  let afterKey := match skipSpace cs with
    | '"' :: rest => (readQuoted rest).map Prod.snd
    | c :: rest => if isKeyChar c then some (rest.dropWhile isKeyChar) else none
    | [] => none
  match afterKey.map skipSpace with
  | some ('=' :: rest) => some rest
  | _ => none

mutual

def readValue : Nat → List Char → Option (Setting × List Char)
  | 0, _ => none
  | fuel + 1, cs =>
    let found : Option (Setting × List Char) :=
      match skipSpace cs with
      | 't' :: 'r' :: 'u' :: 'e' :: rest => some (.other, rest)
      | 'f' :: 'a' :: 'l' :: 's' :: 'e' :: rest => some (.other, rest)
      | '{' :: rest => (readTable fuel rest).map fun r => (.other, r)
      | '[' :: rest => (readArray fuel rest).map fun r => (.other, r)
      | '"' :: rest => (readQuoted rest).map fun r => (.text (String.ofList r.1), r.2)
      | '\'' :: c :: '\'' :: rest => some (.text (String.singleton c), rest)
      | '\'' :: _ => none
      | rest =>
        some (bare (Text.trimChars (rest.takeWhile fun c => !isSeparator c)),
          rest.dropWhile fun c => !isSeparator c)
    found.map fun r => (r.1, skipSpace r.2)

/-- Reads the items of a list and its closing bracket. -/
def readArray : Nat → List Char → Option (List Char)
  | 0, _ => none
  | fuel + 1, cs =>
    match cs with
    | ']' :: rest => some rest
    | cs =>
      match readValue fuel cs with
      | some (_, ']' :: rest) => some rest
      | some (_, ',' :: rest) => readArray fuel rest
      | _ => none

/-- Reads the entries of a table and its closing brace. -/
def readTable : Nat → List Char → Option (List Char)
  | 0, _ => none
  | fuel + 1, cs =>
    match cs with
    | '}' :: rest => some rest
    | cs =>
      match readKey cs with
      | none => none
      | some rest =>
        match readValue fuel rest with
        | some (_, '}' :: rest) => some rest
        | some (_, ',' :: rest) => readTable fuel rest
        | _ => none

end

/-- The setting that the value of a variable writes. -/
def setting (value : String) : Setting :=
  let cs := value.toList
  match readValue (cs.length + 2) cs with
  | some (s, []) => s
  | _ => .text value

def layer (env : List (String × String)) : Layer :=
  env.filterMap fun v =>
    match keyParts? v.1 with
    | some [key] => some (key, setting v.2)
    | some (key :: _) => some (key, .other)
    | _ => none

end Environment

end DecodingDesk.Config

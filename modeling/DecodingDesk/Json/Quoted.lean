/-!
# JSON string literals

Writing escapes the quote, the backslash and the characters below U+0020, and
leaves everything else as it is.  Reading also takes the other escapes; what it
finds is a list of pieces, because an escape can name half of a surrogate pair.
`decode` joins pairs of halves and has no text for a half that stands alone.
-/

namespace DecodingDesk.Json.Quoted

/-- A hexadecimal digit below 16, with small letters. -/
def hexDigit (n : Nat) : Char :=
  if n < 10 then Char.ofNat (48 + n) else Char.ofNat (87 + n)

def hexValue? (c : Char) : Option Nat :=
  let n := c.toNat
  if 48 ≤ n ∧ n ≤ 57 then some (n - 48)
  else if 97 ≤ n ∧ n ≤ 102 then some (n - 87)
  else if 65 ≤ n ∧ n ≤ 70 then some (n - 55)
  else none

def hexValue4? (a b c d : Char) : Option Nat := do
  return ((← hexValue? a) * 16 + (← hexValue? b)) * 256 + (← hexValue? c) * 16 + (← hexValue? d)

/-- A character as it stands inside the quotes. -/
def escape (c : Char) : List Char :=
  match c with
  | '"' => ['\\', '"']
  | '\\' => ['\\', '\\']
  | '\n' => ['\\', 'n']
  | '\r' => ['\\', 'r']
  | '\t' => ['\\', 't']
  | '\x08' => ['\\', 'b']
  | '\x0c' => ['\\', 'f']
  | c =>
    if c.toNat < 32 then ['\\', 'u', '0', '0', hexDigit (c.toNat / 16), hexDigit (c.toNat % 16)]
    else [c]

def unescape? : Char → Option Char
  | '"' => some '"'
  | '\\' => some '\\'
  | '/' => some '/'
  | 'b' => some '\x08'
  | 'f' => some '\x0c'
  | 'n' => some '\n'
  | 'r' => some '\r'
  | 't' => some '\t'
  | _ => none

inductive Piece where
  | char (c : Char)
  /-- half of a surrogate pair, between 0xD800 and 0xDFFF -/
  | half (unit : Nat)
deriving DecidableEq, Repr

def Piece.ofUnit (n : Nat) : Piece :=
  if 0xD800 ≤ n ∧ n < 0xE000 then .half n else .char (Char.ofNat n)

def consPiece (p : Piece) (rest : Option (List Piece × List Char)) :
    Option (List Piece × List Char) :=
  rest.map fun r => (p :: r.1, r.2)

/-- Reads a literal behind its opening quote, and says what follows the closing one. -/
def read? : List Char → Option (List Piece × List Char)
  | [] => none
  | '"' :: rest => some ([], rest)
  | '\\' :: 'u' :: a :: b :: c :: d :: rest =>
    match hexValue4? a b c d with
    | none => none
    | some n => consPiece (.ofUnit n) (read? rest)
  | '\\' :: e :: rest =>
    match unescape? e with
    | none => none
    | some c => consPiece (.char c) (read? rest)
  | c :: rest => if c.toNat < 32 then none else consPiece (.char c) (read? rest)

/-- The character that a pair of surrogates stands for, if the halves are in order. -/
def pair? (high low : Nat) : Option Char :=
  if high < 0xDC00 ∧ 0xDC00 ≤ low then
    some (Char.ofNat (0x10000 + (high - 0xD800) * 0x400 + (low - 0xDC00)))
  else none

/-- The characters of a literal, if no half of a pair stands alone. -/
def decode : List Piece → Option (List Char)
  | [] => some []
  | .char c :: rest => (decode rest).map (c :: ·)
  | .half high :: .half low :: rest =>
    match pair? high low with
    | none => none
    | some c => (decode rest).map (c :: ·)
  | .half _ :: _ => none

/-- The text of a literal, if no half of a pair stands alone. -/
def text? (ps : List Piece) : Option String :=
  (decode ps).map String.ofList

def encode (s : String) : List Char :=
  '"' :: s.toList.flatMap escape ++ ['"']

/-- A literal without a text. -/
def unpaired : List Char :=
  ['"', '\\', 'u', 'd', '8', '0', '0', '"']

end DecodingDesk.Json.Quoted

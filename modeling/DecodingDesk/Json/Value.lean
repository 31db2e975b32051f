import DecodingDesk.Decimal.Numeral
/-!
# JSON values

A value keeps what its text says: numbers as they are written and members in
their order, repeated names included.  A string escape may name half of a
surrogate pair; a string with such an escape has no text, and the value is then
good only where nobody looks at it.
-/

namespace DecodingDesk.Json

open Decimal (Numeral)

inductive Value where
  | null
  | bool (b : Bool)
  | num (n : Numeral)
  /-- A string; without a text if an escape in it names half of a surrogate pair. -/
  | str (text : Option String)
  | arr (items : List Value)
  | obj (members : List (Option String × Value))
deriving Inhabited, Repr

def Value.text (s : String) : Value :=
  .str (some s)

def Value.nat (n : Nat) : Value :=
  .num (Numeral.ofNat n)

def Value.object (members : List (String × Value)) : Value :=
  .obj (members.map fun m => (some m.1, m.2))

mutual

/-- How many containers are nested in each other at the deepest place. -/
def Value.depth : Value → Nat
  | .arr items => depthItems items + 1
  | .obj members => depthMembers members + 1
  | _ => 0

def depthItems : List Value → Nat
  | [] => 0
  | v :: rest => max v.depth (depthItems rest)

def depthMembers : List (Option String × Value) → Nat
  | [] => 0
  | (_, v) :: rest => max v.depth (depthMembers rest)

end

mutual

/-- Whether every string in the value has a text and every number passes a test. -/
def Value.allUsable (number : Numeral → Bool) : Value → Bool
  | .num n => number n
  | .str t => t.isSome
  | .arr items => allUsableItems number items
  | .obj members => allUsableMembers number members
  | _ => true

def allUsableItems (number : Numeral → Bool) : List Value → Bool
  | [] => true
  | v :: rest => v.allUsable number && allUsableItems number rest

/-- The same for every member and its name. -/
def allUsableMembers (number : Numeral → Bool) : List (Option String × Value) → Bool
  | [] => true
  | (name, v) :: rest => name.isSome && v.allUsable number && allUsableMembers number rest

end

end DecodingDesk.Json

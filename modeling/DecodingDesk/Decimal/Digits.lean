/-!
# Decimal digits

Natural numbers as lists of decimal digits, most significant first, digits as
characters, and the powers that scale them.  The two directions are inverse:
`ofDigits_digits` here, and the shortest list is the one that is written.
-/

namespace DecodingDesk.Decimal

abbrev Digit := Fin 10

def Digit.zero : Digit := ⟨0, by decide⟩

def twoPow (k : Nat) : Nat := Nat.pow 2 k

def tenPow (k : Nat) : Nat := Nat.pow 10 k

/-- The digits of a number without leading zeros; zero has one digit. -/
def digits (n : Nat) : List Digit :=
  if n < 10 then [Fin.ofNat 10 n] else digits (n / 10) ++ [Fin.ofNat 10 n]
termination_by n

def ofDigits (ds : List Digit) : Nat :=
  ds.foldl (fun n d => 10 * n + d.val) 0

def Digit.char (d : Digit) : Char :=
  Char.ofNat (48 + d.val)

/-- The digit that a character writes, if it writes one. -/
def Digit.ofChar? (c : Char) : Option Digit :=
  if 48 ≤ c.toNat ∧ c.toNat < 58 then some (Fin.ofNat 10 (c.toNat - 48)) else none

/-- The longest run of digits at the front, and what follows it. -/
def spanDigits : List Char → List Digit × List Char
  | [] => ([], [])
  | c :: rest =>
    match Digit.ofChar? c with
    | none => ([], c :: rest)
    | some d => (d :: (spanDigits rest).1, (spanDigits rest).2)

theorem ofDigits_append_singleton (ds : List Digit) (d : Digit) :
    ofDigits (ds ++ [d]) = 10 * ofDigits ds + d.val := by
  simp [ofDigits]

theorem ofDigits_digits (n : Nat) : ofDigits (digits n) = n := by
  induction n using Nat.strongRecOn with
  | ind n ih =>
    rw [digits]
    split
    · simp [ofDigits, Fin.ofNat]
      omega
    · rw [ofDigits_append_singleton, ih (n / 10) (by omega)]
      simp only [Fin.ofNat]
      omega

theorem digits_ne_nil (n : Nat) : digits n ≠ [] := by
  rw [digits]
  split <;> simp

theorem ofChar?_char (d : Digit) : Digit.ofChar? (Digit.char d) = some d := by
  revert d
  decide

end DecodingDesk.Decimal

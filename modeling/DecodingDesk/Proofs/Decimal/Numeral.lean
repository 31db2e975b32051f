import DecodingDesk.Decimal.Numeral
/-!
# Reading numerals back

A numeral that was written is read back as it is, with its sign and the very digits of
its three parts, wherever something follows it that cannot be a part of it.
-/

namespace DecodingDesk.Decimal

/-- What cannot go on with the digits in front of it. -/
def EndsDigits (cs : List Char) : Prop :=
  ∀ c ∈ cs.head?, Digit.ofChar? c = none

/-- What cannot go on with the digits in front of it, nor with a fraction. -/
def EndsPlain (cs : List Char) : Prop :=
  ∀ c ∈ cs.head?, Digit.ofChar? c = none ∧ c ≠ '.'

/-- What cannot go on with the numeral in front of it. -/
def EndsNumeral (cs : List Char) : Prop :=
  ∀ c ∈ cs.head?, Digit.ofChar? c = none ∧ c ≠ '.' ∧ c ≠ 'e' ∧ c ≠ 'E'

variable {rest : List Char}

theorem EndsPlain.endsDigits (hrest : EndsPlain rest) : EndsDigits rest :=
  fun c hc => (hrest c hc).1

theorem EndsNumeral.endsPlain (hrest : EndsNumeral rest) : EndsPlain rest :=
  fun c hc => ⟨(hrest c hc).1, (hrest c hc).2.1⟩

/-! ## Digits -/

theorem spanDigits_append (ds : List Digit) (hrest : EndsDigits rest) :
    spanDigits (ds.map Digit.char ++ rest) = (ds, rest) := by
  induction ds with
  | nil =>
    cases rest with
    | nil => rfl
    | cons c rest =>
      have hc : Digit.ofChar? c = none := hrest c rfl
      simp [spanDigits, hc]
  | cons d ds ih =>
    rw [List.map_cons, List.cons_append, spanDigits, ofChar?_char]
    simp only [ih]

/-- Only zero is written with a zero in front. -/
theorem digits_ne_zero_cons {n : Nat} (hn : n ≠ 0) (ds : List Digit) :
    digits n ≠ Digit.zero :: ds := by
  induction n using Nat.strongRecOn generalizing ds with
  | ind n ih =>
    rw [digits]
    split
    · rename_i hlt
      intro heq
      have hzero : n % 10 = 0 := congrArg Fin.val (List.cons.inj heq).1
      omega
    · rename_i hge
      intro heq
      obtain ⟨d, tail, htail⟩ := List.exists_cons_of_ne_nil (digits_ne_nil (n / 10))
      rw [htail, List.cons_append] at heq
      obtain rfl : d = Digit.zero := (List.cons.inj heq).1
      exact ih (n / 10) (by omega) (by omega) tail htail

namespace Numeral

/-! ## The three parts -/

theorem readWhole_natChars (n : Nat) (hrest : EndsDigits rest) :
    readWhole (natChars n ++ rest) = some (n, rest) := by
  unfold readWhole natChars
  rw [spanDigits_append _ hrest]
  obtain ⟨d, ds, hdigits⟩ := List.exists_cons_of_ne_nil (digits_ne_nil n)
  have hshort : ¬(d = Digit.zero ∧ ds ≠ []) := by
    rintro ⟨rfl, hds⟩
    by_cases hn : n = 0
    · subst hn
      rw [digits] at hdigits
      exact hds (List.cons.inj hdigits).2.symm
    · exact digits_ne_zero_cons hn ds hdigits
  rw [hdigits]
  simp only [if_neg hshort]
  rw [← hdigits, ofDigits_digits]

/-- The point and the digits behind it, if there are any. -/
def fractionChars (ds : List Digit) : List Char :=
  if ds.isEmpty then [] else '.' :: ds.map Digit.char

theorem endsDigits_fractionChars (ds : List Digit) (hrest : EndsPlain rest) :
    EndsDigits (fractionChars ds ++ rest) := by
  cases ds with
  | nil => exact hrest.endsDigits
  | cons d ds =>
    rintro c ⟨⟩
    decide

theorem readFraction_fractionChars (ds : List Digit) (hrest : EndsPlain rest) :
    readFraction (fractionChars ds ++ rest) = some (ds, rest) := by
  cases ds with
  | nil =>
    rw [fractionChars, if_pos List.isEmpty_nil, List.nil_append]
    unfold readFraction
    split
    · exact absurd rfl (hrest _ rfl).2
    · rfl
  | cons d ds =>
    simp only [fractionChars, List.isEmpty_cons, Bool.false_eq_true, if_false, List.cons_append,
      readFraction, spanDigits_append _ hrest.endsDigits]

/-- The power of ten, if there is one. -/
def powerChars : Option Int → List Char
  | none => []
  | some e => exponentChars e

theorem endsPlain_powerChars (exponent : Option Int) (hrest : EndsNumeral rest) :
    EndsPlain (powerChars exponent ++ rest) := by
  cases exponent with
  | none => exact hrest.endsPlain
  | some e =>
    rintro c ⟨⟩
    decide

theorem readPower_natChars (negative : Bool) (n : Nat) (hrest : EndsDigits rest) :
    readPower negative (natChars n ++ rest) =
      some (some (if negative then -(n : Int) else n), rest) := by
  unfold readPower natChars
  rw [spanDigits_append _ hrest]
  obtain ⟨d, ds, hdigits⟩ := List.exists_cons_of_ne_nil (digits_ne_nil n)
  rw [hdigits]
  simp only
  rw [← hdigits, ofDigits_digits]

theorem readExponent_powerChars (exponent : Option Int) (hrest : EndsNumeral rest) :
    readExponent (powerChars exponent ++ rest) = some (exponent, rest) := by
  cases exponent with
  | none =>
    cases rest with
    | nil => rfl
    | cons c rest =>
      obtain ⟨-, -, he, hE⟩ := hrest c rfl
      simp only [powerChars, List.nil_append, readExponent, he, hE, or_self, if_false]
  | some e =>
    have hpower := fun negative =>
      readPower_natChars negative e.natAbs hrest.endsPlain.endsDigits
    rw [powerChars, exponentChars, List.cons_append, List.cons_append]
    by_cases he : e < 0
    · have habs : -(e.natAbs : Int) = e := by omega
      simp only [readExponent, if_pos he, true_or, if_true, hpower, habs]
    · have habs : (e.natAbs : Int) = e := by omega
      simp only [readExponent, if_neg he, true_or, if_true, hpower, habs, Bool.false_eq_true,
        if_false]

/-! ## The whole numeral -/

/-- What stands behind the sign. -/
def unsignedChars (n : Numeral) : List Char :=
  natChars n.whole ++ (fractionChars n.fraction ++ powerChars n.exponent)

theorem chars_eq (n : Numeral) :
    n.chars = (if n.negative then ['-'] else []) ++ n.unsignedChars := by
  obtain ⟨negative, whole, fraction, exponent⟩ := n
  cases exponent <;>
    simp only [chars, unsignedChars, fractionChars, powerChars, List.append_assoc]

theorem readUnsigned_unsignedChars (n : Numeral) (hrest : EndsNumeral rest) :
    readUnsigned n.negative (n.unsignedChars ++ rest) = some (n, rest) := by
  have hpower := endsPlain_powerChars n.exponent hrest
  have hfraction := endsDigits_fractionChars n.fraction hpower
  simp only [unsignedChars, List.append_assoc, readUnsigned, readWhole_natChars _ hfraction,
    readFraction_fractionChars _ hpower, readExponent_powerChars _ hrest, Option.bind_eq_bind,
    Option.bind_some, Option.pure_def]

theorem exists_unsignedChars_eq_cons (n : Numeral) :
    ∃ d cs, n.unsignedChars = Digit.char d :: cs := by
  obtain ⟨d, ds, hdigits⟩ := List.exists_cons_of_ne_nil (digits_ne_nil n.whole)
  rw [unsignedChars, natChars, hdigits]
  exact ⟨d, _, rfl⟩

/-- A numeral begins with a digit or with a minus sign. -/
theorem exists_chars_eq_cons (n : Numeral) :
    ∃ c cs, n.chars = c :: cs ∧ (c = '-' ∨ ∃ d, c = Digit.char d) := by
  obtain ⟨d, cs, hunsigned⟩ := n.exists_unsignedChars_eq_cons
  rw [chars_eq, hunsigned]
  split
  · exact ⟨'-', _, rfl, .inl rfl⟩
  · exact ⟨Digit.char d, _, rfl, .inr ⟨d, rfl⟩⟩

private theorem char_ne_minus (d : Digit) : Digit.char d ≠ '-' := by
  revert d
  decide

theorem read?_chars (n : Numeral) (hrest : EndsNumeral rest) :
    read? (n.chars ++ rest) = some (n, rest) := by
  have hunsigned := readUnsigned_unsignedChars n hrest
  rw [chars_eq]
  cases hnegative : n.negative with
  | true =>
    rw [hnegative] at hunsigned
    exact hunsigned
  | false =>
    rw [hnegative] at hunsigned
    obtain ⟨d, cs, hcs⟩ := n.exists_unsignedChars_eq_cons
    rw [hcs] at hunsigned ⊢
    rw [← hunsigned]
    unfold read?
    split
    · rename_i hminus
      exact absurd (List.cons.inj hminus).1 (char_ne_minus d)
    · rfl

end Numeral

end DecodingDesk.Decimal

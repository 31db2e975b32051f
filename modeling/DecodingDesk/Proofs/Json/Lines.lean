import DecodingDesk.Json.Printer
/-!
# The compact form stands on one line

Control characters of a text are escaped and nothing else brings one in, so a value is
written without any, and in particular without a line feed.
-/

namespace DecodingDesk.Json

open Decimal (Digit Numeral)

/-- Whether no control character is among characters. -/
def IsPlain (cs : List Char) : Prop :=
  ∀ c ∈ cs, 32 ≤ c.toNat

theorem isPlain_append {cs ds : List Char} :
    IsPlain (cs ++ ds) ↔ IsPlain cs ∧ IsPlain ds :=
  List.forall_mem_append

theorem isPlain_cons {c : Char} {cs : List Char} :
    IsPlain (c :: cs) ↔ 32 ≤ c.toNat ∧ IsPlain cs :=
  List.forall_mem_cons

theorem isPlain_nil : IsPlain [] :=
  List.forall_mem_nil _

theorem isPlain_of_all {cs : List Char} (h : (cs.all fun c => decide (32 ≤ c.toNat)) = true) :
    IsPlain cs :=
  fun c hc => of_decide_eq_true (List.all_eq_true.mp h c hc)

/-! ## Strings -/

theorem Quoted.hexDigit_spec : ∀ n < 16, 32 ≤ (hexDigit n).toNat := by
  decide

theorem Quoted.isPlain_escape (c : Char) : IsPlain (escape c) := by
  unfold escape
  split
  case h_8 =>
    split
    · rename_i hlow
      have hhigh := hexDigit_spec (c.toNat / 16) (by omega)
      have hrest := hexDigit_spec (c.toNat % 16) (by omega)
      simp [isPlain_cons, isPlain_nil, hhigh, hrest]
    · exact isPlain_cons.mpr ⟨by omega, isPlain_nil⟩
  all_goals exact isPlain_of_all (by decide)

theorem isPlain_stringChars (t : Option String) : IsPlain (stringChars t) := by
  cases t with
  | none => exact isPlain_of_all (by decide)
  | some s =>
    refine isPlain_cons.mpr ⟨by decide, isPlain_append.mpr ⟨?_, ?_⟩⟩
    · intro c hc
      obtain ⟨d, -, hd⟩ := List.mem_flatMap.mp hc
      exact Quoted.isPlain_escape d c hd
    · exact isPlain_cons.mpr ⟨by decide, isPlain_nil⟩

/-! ## Numbers -/

theorem isPlain_digits (ds : List Digit) : IsPlain (ds.map Digit.char) := by
  have hdigit : ∀ d : Digit, 32 ≤ d.char.toNat := by decide
  intro c hc
  obtain ⟨d, -, rfl⟩ := List.mem_map.mp hc
  exact hdigit d

theorem isPlain_numeral (n : Numeral) : IsPlain n.chars := by
  have hsign : IsPlain (if n.negative then ['-'] else []) := by
    split
    · exact isPlain_cons.mpr ⟨by decide, isPlain_nil⟩
    · exact isPlain_nil
  have hfraction :
      IsPlain (if n.fraction.isEmpty then [] else '.' :: n.fraction.map Digit.char) := by
    split
    · exact isPlain_nil
    · exact isPlain_cons.mpr ⟨by decide, isPlain_digits _⟩
  have hexponent : ∀ e : Int, IsPlain (Numeral.exponentChars e) := by
    intro e
    refine isPlain_cons.mpr ⟨by decide, isPlain_cons.mpr ⟨?_, isPlain_digits _⟩⟩
    split <;> decide
  unfold Numeral.chars
  refine isPlain_append.mpr ⟨isPlain_append.mpr ⟨isPlain_append.mpr ⟨hsign, ?_⟩, hfraction⟩, ?_⟩
  · exact isPlain_digits _
  · split
    · exact isPlain_nil
    · exact hexponent _

/-! ## Values -/

mutual

theorem Value.isPlain_chars : ∀ v : Value, IsPlain v.chars
  | .null | .bool true | .bool false | .arr [] | .obj [] => isPlain_of_all (by decide)
  | .num n => isPlain_numeral n
  | .str t => isPlain_stringChars t
  | .arr (v :: rest) =>
    isPlain_append.mpr
      ⟨isPlain_cons.mpr ⟨by decide, v.isPlain_chars⟩, isPlain_itemChars rest⟩
  | .obj ((name, v) :: rest) => by
    have hname := isPlain_stringChars name
    have hvalue := v.isPlain_chars
    have hrest := isPlain_memberChars rest
    simp only [Value.chars, isPlain_append, isPlain_cons]
    exact ⟨⟨⟨by decide, hname⟩, by decide, hvalue⟩, hrest⟩

theorem isPlain_itemChars : ∀ items : List Value, IsPlain (itemChars items)
  | [] => isPlain_cons.mpr ⟨by decide, isPlain_nil⟩
  | v :: rest =>
    isPlain_append.mpr
      ⟨isPlain_cons.mpr ⟨by decide, v.isPlain_chars⟩, isPlain_itemChars rest⟩

theorem isPlain_memberChars : ∀ members : List (Option String × Value),
    IsPlain (memberChars members)
  | [] => isPlain_cons.mpr ⟨by decide, isPlain_nil⟩
  | (name, v) :: rest => by
    have hname := isPlain_stringChars name
    have hvalue := v.isPlain_chars
    have hrest := isPlain_memberChars rest
    simp only [memberChars, isPlain_append, isPlain_cons]
    exact ⟨⟨⟨by decide, hname⟩, by decide, hvalue⟩, hrest⟩

end

theorem Value.newline_not_mem_print (v : Value) : '\n' ∉ v.print.toList := by
  rw [Value.print, String.toList_ofList]
  intro hmem
  exact absurd (v.isPlain_chars '\n' hmem) (by decide)

end DecodingDesk.Json

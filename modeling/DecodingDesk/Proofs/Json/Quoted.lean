import DecodingDesk.Json.Quoted
/-!
# Reading string literals back

Every text is read back from the literal that was written for it, whatever characters
it has: each one is escaped to characters from which reading takes just that one.  The
literal without a text is read back as one without a text.
-/

namespace DecodingDesk.Json.Quoted

theorem hexValue4?_hexDigit :
    ∀ n < 32, hexValue4? '0' '0' (hexDigit (n / 16)) (hexDigit (n % 16)) = some n := by
  decide

/-- A character that is not escaped stands for itself. -/
theorem read?_cons {c : Char} (hquote : c ≠ '"') (hbackslash : c ≠ '\\') (hlow : ¬c.toNat < 32)
    (rest : List Char) : read? (c :: rest) = consPiece (.char c) (read? rest) := by
  rw [read?.eq_def]
  split
  · contradiction
  · exact absurd (List.cons.inj ‹_›).1 hquote
  · exact absurd (List.cons.inj ‹_›).1 hbackslash
  · exact absurd (List.cons.inj ‹_›).1 hbackslash
  · obtain ⟨rfl, rfl⟩ := List.cons.inj ‹_›
    rw [if_neg hlow]

/-- Reading takes one character from what stands for it. -/
theorem read?_escape_append (c : Char) (rest : List Char) :
    read? (escape c ++ rest) = consPiece (.char c) (read? rest) := by
  unfold escape
  split
  case h_8 hquote hbackslash _ _ _ _ _ =>
    split
    · rename_i hlow
      have hunit : Piece.ofUnit c.toNat = .char c := by
        rw [Piece.ofUnit, if_neg (by omega), Char.ofNat_toNat]
      simp only [List.cons_append, List.nil_append, read?, hexValue4?_hexDigit _ hlow, hunit]
    · rename_i hlow
      exact read?_cons hquote hbackslash hlow rest
  all_goals rfl

theorem read?_flatMap_escape (cs rest : List Char) :
    read? (cs.flatMap escape ++ '"' :: rest) = some (cs.map .char, rest) := by
  induction cs with
  | nil => rfl
  | cons c cs ih =>
    rw [List.flatMap_cons, List.append_assoc, read?_escape_append, ih]
    rfl

theorem decode_map_char (cs : List Char) : decode (cs.map .char) = some cs := by
  induction cs with
  | nil => rfl
  | cons c cs ih => rw [List.map_cons, decode, ih, Option.map_some]

theorem text?_map_char (s : String) : text? (s.toList.map .char) = some s := by
  rw [text?, decode_map_char, Option.map_some, String.ofList_toList]

/-- The literal without a text is half of a pair. -/
theorem read?_unpaired (rest : List Char) :
    read? (unpaired.tail ++ rest) = some ([.half 0xD800], rest) := by
  have hunit : hexValue4? 'd' '8' '0' '0' = some 0xD800 := by decide
  simp [unpaired, read?, hunit, Piece.ofUnit, consPiece]

end DecodingDesk.Json.Quoted

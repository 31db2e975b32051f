import Mathlib.Data.List.Basic
import DecodingDesk.Text.Bytes
/-!
# Lines of a text

A text is read back from its bytes, and so is every line of it, for the bytes that end a line
stand for no part of another character.  Lines without such bytes that are written one after
another, each with a line feed, are the lines of the whole.
-/

namespace DecodingDesk.Text

variable {s t : String} {cs : List Char} {ls : List Bytes}

/-! ## Bytes of a text -/

theorem encode_append (s t : String) : encode (s ++ t) = encode s ++ encode t := by
  rw [encode, String.toList_append, List.flatMap_append, encode, encode]

theorem encode_ofList (cs : List Char) :
    encode (String.ofList cs) = cs.flatMap String.utf8EncodeChar := by
  rw [encode, String.toList_ofList]

theorem decode_encode (s : String) : decode (encode s) = some s := by
  have hbytes : (encode s).toByteArray = s.toByteArray := String.utf8Encode_toList
  rw [decode, hbytes, String.fromUTF8?, dif_pos s.isValidUTF8]
  rfl

/-- The byte of an ASCII character is part of no other character. -/
theorem eq_of_mem_utf8EncodeChar {c d : Char} (hc : c.toNat < 128)
    (h : UInt8.ofNat c.toNat ∈ String.utf8EncodeChar d) : d = c := by
  have hbyte : ∀ n < 256, UInt8.ofNat c.toNat = UInt8.ofNat n → c.toNat = n := by
    intro n hn heq
    have hnat := congrArg UInt8.toNat heq
    rwa [UInt8.toNat_ofNat', UInt8.toNat_ofNat', Nat.mod_eq_of_lt (by omega),
      Nat.mod_eq_of_lt hn] at hnat
  rw [String.utf8EncodeChar] at h
  split at h
  · exact (Char.toNat_inj.mp (hbyte d.val.toNat (by omega) (List.mem_singleton.mp h))).symm
  · -- all bytes of a longer character are above 128
    exfalso
    have hlow : ∀ n < 256, UInt8.ofNat c.toNat = UInt8.ofNat n → n < 128 :=
      fun n hn heq => hbyte n hn heq ▸ hc
    split at h
    on_goal 2 => split at h
    all_goals simp only [List.mem_cons, List.not_mem_nil, or_false] at h
    · rcases h with h | h <;> · have := hlow _ (by omega) h; omega
    · rcases h with h | h | h <;> · have := hlow _ (by omega) h; omega
    · rcases h with h | h | h | h <;> · have := hlow _ (by omega) h; omega

theorem mem_toList_of_mem_encode {c : Char} (hc : c.toNat < 128)
    (h : UInt8.ofNat c.toNat ∈ encode s) : c ∈ s.toList := by
  obtain ⟨d, hd, hmem⟩ := List.mem_flatMap.mp h
  rwa [← eq_of_mem_utf8EncodeChar hc hmem]

/-! ## Lines that end in a line feed -/

theorem splitOn_flatMap_concat {x : UInt8} (h : ∀ l ∈ ls, x ∉ l) :
    (ls.flatMap (· ++ [x])).splitOn x = ls ++ [[]] := by
  induction ls with
  | nil => rfl
  | cons l ls ih =>
    obtain ⟨hl, hls⟩ := List.forall_mem_cons.mp h
    rw [List.flatMap_cons, List.append_assoc, List.singleton_append,
      List.splitOn_append_cons_self_of_not_mem hl, ih hls, List.cons_append]

theorem dropReturn_of_not_mem {line : Bytes} (h : carriageReturn ∉ line) :
    dropReturn line = line :=
  if_neg fun hlast => h (List.mem_of_getLast? hlast)

/-- Lines that hold no byte of a line end are the lines of what they are written to. -/
theorem lines_flatMap (h : ∀ l ∈ ls, lineFeed ∉ l ∧ carriageReturn ∉ l) :
    lines (ls.flatMap (· ++ [lineFeed])) = ls := by
  have hdrop : ls.map dropReturn = ls :=
    (List.map_congr_left fun l hl => dropReturn_of_not_mem (h l hl).2).trans (List.map_id ls)
  simp only [lines, splitOn_flatMap_concat fun l hl => (h l hl).1, List.dropLast_concat,
    List.getLast?_concat, hdrop]
  simp

/-! ## Lines of a text -/

theorem modifyHead_splitOn {x : UInt8} {front : Bytes} (h : x ∉ front) (rest : Bytes) :
    (front ++ rest).splitOn x = (rest.splitOn x).modifyHead (front ++ ·) := by
  induction front with
  | nil => cases hrest : rest.splitOn x <;> simp [hrest]
  | cons b front ih =>
    obtain ⟨hb, hfront⟩ := not_or.mp (mt List.mem_cons.mpr h)
    rw [List.cons_append, List.splitOn_cons_eq_if_modifyHead, if_neg (by simpa using Ne.symm hb),
      ih hfront, List.modifyHead_modifyHead]
    rfl

/-- Cutting the bytes of a text at line feeds cuts the text. -/
theorem splitOn_encode (cs : List Char) :
    (cs.flatMap String.utf8EncodeChar).splitOn lineFeed =
      (cs.splitOn '\n').map (·.flatMap String.utf8EncodeChar) := by
  induction cs with
  | nil => rfl
  | cons c cs ih =>
    rw [List.flatMap_cons, List.splitOn_cons_eq_if_modifyHead]
    by_cases hc : c = '\n'
    · subst hc
      have hbyte : String.utf8EncodeChar '\n' = [lineFeed] := rfl
      rw [hbyte, List.singleton_append, List.splitOn_cons_eq_if_modifyHead, if_pos (by rfl),
        if_pos (by rfl), ih]
      rfl
    · have hbyte : lineFeed ∉ String.utf8EncodeChar c := fun h =>
        hc (eq_of_mem_utf8EncodeChar (c := '\n') (by decide) h)
      rw [modifyHead_splitOn hbyte, ih, if_neg (by simpa using hc)]
      cases cs.splitOn '\n' <;> rfl

theorem exists_dropReturn_eq (cs : List Char) :
    ∃ ds : List Char, dropReturn (cs.flatMap String.utf8EncodeChar) =
      ds.flatMap String.utf8EncodeChar := by
  rcases List.eq_nil_or_concat' cs with rfl | ⟨front, c, rfl⟩
  · exact ⟨[], rfl⟩
  by_cases hc : c = '\r'
  · subst hc
    have hbytes : (front ++ ['\r']).flatMap String.utf8EncodeChar =
        front.flatMap String.utf8EncodeChar ++ [carriageReturn] := List.flatMap_append
    refine ⟨front, ?_⟩
    rw [hbytes, dropReturn, if_pos List.getLast?_concat, List.dropLast_concat]
  · refine ⟨front ++ [c], if_neg fun hlast => hc ?_⟩
    have hmem : carriageReturn ∈ String.utf8EncodeChar c := by
      rw [List.flatMap_append, List.flatMap_singleton,
        List.getLast?_append_of_ne_nil _ String.utf8EncodeChar_ne_nil] at hlast
      exact List.mem_of_getLast? hlast
    exact eq_of_mem_utf8EncodeChar (c := '\r') (by decide) hmem

/-- Every line of a text is a text. -/
theorem exists_eq_encode_of_mem_lines {line : Bytes} (h : line ∈ lines (encode s)) :
    ∃ t, line = encode t := by
  have hpiece : ∀ piece ∈ (encode s).splitOn lineFeed,
      ∃ cs : List Char, piece = cs.flatMap String.utf8EncodeChar := by
    rw [encode, splitOn_encode]
    intro piece hp
    obtain ⟨cs, -, rfl⟩ := List.mem_map.mp hp
    exact ⟨cs, rfl⟩
  suffices hchars : ∃ cs : List Char, line = cs.flatMap String.utf8EncodeChar by
    obtain ⟨cs, rfl⟩ := hchars
    exact ⟨String.ofList cs, (encode_ofList cs).symm⟩
  rcases List.mem_append.mp h with h | h
  · obtain ⟨piece, hp, rfl⟩ := List.mem_map.mp h
    obtain ⟨cs, rfl⟩ := hpiece piece ((List.dropLast_sublist _).subset hp)
    exact exists_dropReturn_eq cs
  · have hlast := (List.mem_filter.mp h).1
    exact hpiece line (List.mem_of_getLast? (Option.mem_toList.mp hlast))

end DecodingDesk.Text

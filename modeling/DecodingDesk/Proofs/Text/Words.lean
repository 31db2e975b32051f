import DecodingDesk.Text.Blank
/-!
# Words in a row

Cutting a text gives words, and words that are put in a row with a space between are cut at just
these spaces.
-/

namespace DecodingDesk.Text

/-- A text that is not empty and has no blank in it. -/
structure IsWord (s : String) : Prop where
  ne_empty : s ≠ ""
  not_isBlank : ∀ c ∈ s.toList, isBlank c = false

variable {s word : String} {ws : List String}

theorem isWord_of_mem_words (h : word ∈ words s) : IsWord word := by
  obtain ⟨cs, hcs, rfl⟩ := List.mem_map.mp h
  obtain ⟨hne, hblank⟩ := ne_nil_and_not_isBlank_of_mem_wordsOf hcs
  refine ⟨fun hempty => hne ?_, by rwa [String.toList_ofList]⟩
  rw [← String.toList_ofList (l := cs), hempty, String.toList_empty]

theorem IsWord.toList_ne_nil (h : IsWord word) : word.toList ≠ [] := by
  rw [ne_eq, String.toList_eq_nil_iff]
  exact h.ne_empty

theorem IsWord.words_eq (h : IsWord word) : words word = [word] := by
  rw [words, wordsOf_eq_singleton h.toList_ne_nil h.not_isBlank, List.map_singleton,
    String.ofList_toList]

theorem words_append (h : IsWord word) (rest : String) :
    words (word ++ " " ++ rest) = word :: words rest := by
  have hchars : (word ++ " " ++ rest).toList = word.toList ++ ' ' :: rest.toList := by
    simp
  rw [words, wordsOf, hchars, List.splitOnP_append_cons_of_forall_mem h.not_isBlank ' ' rfl,
    List.filter_cons_of_pos (by simp [h.toList_ne_nil]), List.map_cons, String.ofList_toList]
  rfl

theorem words_intercalate (h : ∀ word ∈ ws, IsWord word) : words (" ".intercalate ws) = ws := by
  induction ws with
  | nil => rfl
  | cons word rest ih =>
    obtain ⟨hword, hrest⟩ := List.forall_mem_cons.mp h
    by_cases hnil : rest = []
    · rw [hnil, String.intercalate_singleton, hword.words_eq]
    · rw [String.intercalate_cons_of_ne_nil hnil, words_append hword, ih hrest]

/-- The only blanks in a row of words are the spaces between them. -/
theorem eq_space_of_mem_intercalate (h : ∀ word ∈ ws, IsWord word) {c : Char}
    (hc : c ∈ (" ".intercalate ws).toList) (hblank : isBlank c = true) : c = ' ' := by
  induction ws with
  | nil => simp at hc
  | cons word rest ih =>
    obtain ⟨hword, hrest⟩ := List.forall_mem_cons.mp h
    have hnot : c ∉ word.toList := by
      intro hmem
      rw [hword.not_isBlank c hmem] at hblank
      cases hblank
    by_cases hnil : rest = []
    · rw [hnil, String.intercalate_singleton] at hc
      exact absurd hc hnot
    · rw [String.intercalate_cons_of_ne_nil hnil, String.toList_append, String.toList_append,
        List.mem_append, List.mem_append] at hc
      rcases hc with (hc | hc) | hc
      · exact absurd hc hnot
      · exact List.mem_singleton.mp hc
      · exact ih hrest hc

end DecodingDesk.Text

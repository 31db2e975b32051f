/-!
# White space and words

The characters with the Unicode property White_Space, and the two things done
with them: trimming a text and cutting it into words.  A word is a maximal run
of characters that are not blank, so no word is empty and no word holds a blank.
-/

namespace DecodingDesk.Text

/-- The code points with the property White_Space, as ranges that include both ends. -/
def blankRanges : List (Nat × Nat) :=
  [(0x9, 0xD), (0x20, 0x20), (0x85, 0x85), (0xA0, 0xA0), (0x1680, 0x1680),
   (0x2000, 0x200A), (0x2028, 0x2029), (0x202F, 0x202F), (0x205F, 0x205F),
   (0x3000, 0x3000)]

def isBlank (c : Char) : Bool :=
  blankRanges.any fun r => r.1 ≤ c.toNat && c.toNat ≤ r.2

/-- The words of a list of characters, in order. -/
def wordsOf (cs : List Char) : List (List Char) :=
  (cs.splitOnP isBlank).filter fun w => !w.isEmpty

def words (s : String) : List String :=
  (wordsOf s.toList).map String.ofList

theorem not_isBlank_of_mem_splitOnP {cs w : List Char} {c : Char}
    (hw : w ∈ cs.splitOnP isBlank) (hc : c ∈ w) : isBlank c = false := by
  induction cs generalizing w with
  | nil => simp_all
  | cons d rest ih =>
    rw [List.splitOnP_cons_eq_if_modifyHead] at hw
    split at hw
    · rcases List.mem_cons.mp hw with rfl | hw
      · cases hc
      · exact ih hw hc
    · rename_i hd
      cases hs : rest.splitOnP isBlank with
      | nil => exact absurd hs (List.splitOnP_ne_nil isBlank rest)
      | cons first others =>
        rw [hs, List.modifyHead_cons] at hw
        rcases List.mem_cons.mp hw with rfl | hw
        · rcases List.mem_cons.mp hc with rfl | hc
          · simpa using hd
          · exact ih (hs ▸ List.mem_cons_self) hc
        · exact ih (hs ▸ List.mem_cons_of_mem first hw) hc

theorem ne_nil_and_not_isBlank_of_mem_wordsOf {cs w : List Char} (hw : w ∈ wordsOf cs) :
    w ≠ [] ∧ ∀ c ∈ w, isBlank c = false := by
  obtain ⟨hmem, hne⟩ := List.mem_filter.mp hw
  exact ⟨by simpa using hne, fun c hc => not_isBlank_of_mem_splitOnP hmem hc⟩

theorem wordsOf_eq_singleton {w : List Char} (hne : w ≠ [])
    (h : ∀ c ∈ w, isBlank c = false) : wordsOf w = [w] := by
  rw [wordsOf, List.splitOnP_eq_singleton h]
  simp [hne]

def trimChars (cs : List Char) : List Char :=
  ((cs.dropWhile isBlank).reverse.dropWhile isBlank).reverse

/-- The text without the blanks at its two ends. -/
def trim (s : String) : String :=
  String.ofList (trimChars s.toList)

/-- Upper-case ASCII letters replaced by lower-case ones; all else stays. -/
def asciiLower (s : String) : String :=
  String.ofList (s.toList.map Char.toLower)

end DecodingDesk.Text

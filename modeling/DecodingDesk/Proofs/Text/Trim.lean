import DecodingDesk.Text.Blank
import Mathlib.Data.List.TakeWhile
/-!
# Trimming

What trimming leaves of a text stands between blanks only, and a row of characters without
blanks that stands between blanks only is what trimming leaves.
-/

namespace DecodingDesk.Text

variable {before word after : List Char}

theorem exists_trimChars (cs : List Char) : ∃ before after,
    cs = before ++ trimChars cs ++ after ∧ (∀ c ∈ before, isBlank c = true) ∧
      ∀ c ∈ after, isBlank c = true := by
  have hfront := List.takeWhile_append_dropWhile (p := isBlank) (l := cs)
  have hback := List.takeWhile_append_dropWhile (p := isBlank) (l := (cs.dropWhile isBlank).reverse)
  refine ⟨cs.takeWhile isBlank, ((cs.dropWhile isBlank).reverse.takeWhile isBlank).reverse,
    ?_, fun c hc => List.mem_takeWhile_imp hc, fun c hc => ?_⟩
  · rw [trimChars, List.append_assoc, ← List.reverse_append, hback, List.reverse_reverse, hfront]
  · exact List.mem_takeWhile_imp (List.mem_reverse.mp hc)

/-- Blanks in front of a row of characters that starts with none are dropped, and no more. -/
private theorem dropWhile_append_word {blanks rest : List Char}
    (hblanks : ∀ c ∈ blanks, isBlank c = true) (hword : ∀ c ∈ word, isBlank c = false)
    (hne : word ≠ []) : (blanks ++ word ++ rest).dropWhile isBlank = word ++ rest := by
  rw [List.append_assoc, List.dropWhile_append_of_pos hblanks]
  cases word with
  | nil => exact absurd rfl hne
  | cons c word =>
    rw [List.cons_append, List.dropWhile_cons_of_neg]
    simp [hword c List.mem_cons_self]

theorem trimChars_append (hbefore : ∀ c ∈ before, isBlank c = true)
    (hword : ∀ c ∈ word, isBlank c = false) (hne : word ≠ [])
    (hafter : ∀ c ∈ after, isBlank c = true) : trimChars (before ++ word ++ after) = word := by
  have hback : (word ++ after).reverse = after.reverse ++ word.reverse ++ [] := by simp
  rw [trimChars, dropWhile_append_word hbefore hword hne, hback,
    dropWhile_append_word (fun c hc => hafter c (List.mem_reverse.mp hc))
      (fun c hc => hword c (List.mem_reverse.mp hc)) (by simpa using hne),
    List.append_nil, List.reverse_reverse]

/-- No blank stands between the first upper-case ASCII letter and the last lower-case one. -/
theorem isBlank_of_letter {c : Char} (hfirst : 65 ≤ c.toNat) (hlast : c.toNat ≤ 122) :
    isBlank c = false := by
  have houtside : ∀ r ∈ blankRanges, ¬ (r.1 ≤ c.toNat ∧ c.toNat ≤ r.2) := by
    simp only [blankRanges, List.forall_mem_cons, List.not_mem_nil, false_implies, implies_true,
      and_true]
    omega
  rw [isBlank, List.any_eq_false]
  intro r hr
  simpa using houtside r hr

/-- No letter is blank, so case does not matter. -/
theorem isBlank_toLower (c : Char) : isBlank c.toLower = isBlank c := by
  unfold Char.toLower
  split
  · rename_i hupper
    have hfirst : 65 ≤ c.toNat := hupper.1
    have hlast : c.toNat ≤ 90 := hupper.2
    have hlower : (c.val + ('a'.val - 'A'.val)).toNat = c.toNat + 32 := by
      rw [UInt32.toNat_add]
      exact Nat.mod_eq_of_lt (by show c.toNat + 32 < _; omega)
    rw [isBlank_of_letter hfirst (by omega), isBlank_of_letter]
    · show 65 ≤ (c.val + ('a'.val - 'A'.val)).toNat
      omega
    · show (c.val + ('a'.val - 'A'.val)).toNat ≤ 122
      omega
  · rfl

end DecodingDesk.Text

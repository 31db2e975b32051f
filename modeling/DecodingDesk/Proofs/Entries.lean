import Mathlib.Data.List.Range
/-!
# Entries of lists

What replacing one entry makes of a list and of the counts and sums over it, a count and a search
over the places of a list, and what stands for a key that is not repeated.
-/

namespace DecodingDesk

variable {α : Type}

theorem getElem?_set_of_getElem? {ws : List α} {i : Nat} {w : α} (h : ws[i]? = some w) (v : α) :
    (ws.set i v)[i]? = some v :=
  List.getElem?_set_self (List.getElem?_eq_some_iff.mp h).1

theorem getElem?_concat (ws : List α) (w : α) (i : Nat) :
    (ws ++ [w])[i]? = ws[i]?.or (if i = ws.length then some w else none) := by
  rcases Nat.lt_trichotomy i ws.length with hlt | rfl | hgt
  · rw [List.getElem?_append_left hlt, List.getElem?_eq_getElem hlt, Option.some_or]
  · rw [List.getElem?_concat_length, List.getElem?_eq_none (Nat.le_refl _), if_pos rfl,
      Option.none_or]
  · have hlength : (ws ++ [w]).length ≤ i := by
      rw [List.length_append, List.length_singleton]
      exact hgt
    rw [List.getElem?_eq_none hlength, List.getElem?_eq_none (Nat.le_of_lt hgt),
      if_neg (Nat.ne_of_gt hgt), Option.none_or]

theorem countP_set_add {ws : List α} {i : Nat} {w : α} (h : ws[i]? = some w)
    (v : α) (f : α → Bool) :
    (ws.set i v).countP f + (if f w then 1 else 0) = ws.countP f + if f v then 1 else 0 := by
  obtain ⟨hi, rfl⟩ := List.getElem?_eq_some_iff.mp h
  rw [List.countP_set hi]
  have hpos : f ws[i] = true → 0 < ws.countP f := by
    intro hf
    exact List.countP_pos_iff.mpr ⟨ws[i], List.getElem_mem hi, hf⟩
  split
  · have := hpos ‹_›
    omega
  · omega

theorem count_set_add [DecidableEq α] {ws : List α} {i : Nat} {w : α} (h : ws[i]? = some w)
    (v x : α) :
    (ws.set i v).count x + (if w = x then 1 else 0) = ws.count x + if v = x then 1 else 0 := by
  simpa [List.count] using countP_set_add h v (· == x)

theorem foldr_set_add {ws : List α} {i : Nat} {w : α} (h : ws[i]? = some w) (v : α)
    (f : α → Nat) :
    (ws.set i v).foldr (fun w n => f w + n) 0 + f w = ws.foldr (fun w n => f w + n) 0 + f v := by
  induction ws generalizing i with
  | nil => cases h
  | cons first rest ih =>
    cases i with
    | zero =>
      cases h
      simp only [List.set_cons_zero, List.foldr_cons]
      omega
    | succ i =>
      have hrest := ih h
      simp only [List.set_cons_succ, List.foldr_cons]
      omega

theorem foldr_concat_add (ws : List α) (w : α) (f : α → Nat) :
    (ws ++ [w]).foldr (fun w n => f w + n) 0 = ws.foldr (fun w n => f w + n) 0 + f w := by
  induction ws with
  | nil => simp
  | cons first rest ih =>
    simp only [List.cons_append, List.foldr_cons, ih]
    omega

theorem countP_eq_countP_range (ws : List α) (f : α → Bool) :
    ws.countP f = (List.range ws.length).countP fun i => (ws[i]?).any f := by
  induction ws with
  | nil => rfl
  | cons w ws ih =>
    rw [List.length_cons, List.range_succ_eq_map, List.countP_cons, List.countP_cons,
      List.countP_map, ih]
    rfl

/-- Where no key is repeated, a key stands for whatever is there with it. -/
theorem lookup_eq_some_iff_mem [BEq α] [LawfulBEq α] {β : Type} {entries : List (α × β)}
    (hnodup : (entries.map Prod.fst).Nodup) {key : α} {v : β} :
    entries.lookup key = some v ↔ (key, v) ∈ entries := by
  rw [List.lookup_eq_some_iff]
  constructor
  · rintro ⟨before, after, rfl, -⟩
    exact List.mem_append_right _ List.mem_cons_self
  · intro hmem
    obtain ⟨before, after, rfl⟩ := List.append_of_mem hmem
    refine ⟨before, after, rfl, fun m hm => bne_iff_ne.mpr ?_⟩
    rintro rfl
    simp only [List.map_append, List.map_cons, List.nodup_append] at hnodup
    exact hnodup.2.2 _ (List.mem_map_of_mem hm) _ List.mem_cons_self rfl

theorem lookup_eq_none_iff_mem [BEq α] [LawfulBEq α] {β : Type} {entries : List (α × β)}
    {key : α} : entries.lookup key = none ↔ ∀ v, (key, v) ∉ entries := by
  rw [List.lookup_eq_none_iff]
  constructor
  · intro h v hmem
    exact absurd (h _ hmem) (by simp)
  · rintro h ⟨other, v⟩ hmem
    refine bne_iff_ne.mpr ?_
    rintro rfl
    exact h v hmem

end DecodingDesk

import DecodingDesk.Model.Loader
import DecodingDesk.Proofs.Text.Trim
import DecodingDesk.Proofs.Text.Words
/-!
# Selectors and devices

A selector that is looked at gives the device that it names, and there is an error exactly if
it names none.  What may stand around a name are blanks, and its letters may be of either
case.
-/

namespace DecodingDesk.Device

open Text (IsWord isBlank)

variable {selector name : String} {d : Device}

/-- The names by which a device can be asked for. -/
def names : Device → List String
  | cpu => ["cpu"]
  | cuda => ["cuda", "gpu"]
  | auto => ["auto"]

/-- A selector names a device: without the blanks around it, and with its ASCII letters in lower
case, it is one of the device's names. -/
def Names (selector : String) (d : Device) : Prop :=
  ∃ name ∈ d.names, ∃ before word after : List Char, selector.toList = before ++ word ++ after ∧
    (∀ c ∈ before, isBlank c = true) ∧ (∀ c ∈ after, isBlank c = true) ∧
      word.map Char.toLower = name.toList

theorem isWord_of_mem_names (h : name ∈ d.names) : IsWord name := by
  have hwords : ∀ d : Device, ∀ name ∈ d.names,
      name ≠ "" ∧ name.toList.all (fun c => !isBlank c) = true := by
    intro d
    cases d <;> decide
  obtain ⟨hne, hblank⟩ := hwords d name h
  exact ⟨hne, by simpa using hblank⟩

theorem ofName?_eq_some_iff : ofName? name = some d ↔ name ∈ d.names := by
  unfold ofName?
  cases d <;> simp only [names, List.mem_cons, List.not_mem_nil, or_false] <;> grind

theorem normalize_eq_iff (hname : IsWord name) :
    normalize selector = name ↔ ∃ before word after : List Char,
      selector.toList = before ++ word ++ after ∧ (∀ c ∈ before, isBlank c = true) ∧
        (∀ c ∈ after, isBlank c = true) ∧ word.map Char.toLower = name.toList := by
  have hnormalize : normalize selector = name ↔
      (Text.trimChars selector.toList).map Char.toLower = name.toList := by
    rw [normalize, Text.asciiLower, Text.trim, String.toList_ofList, ← String.toList_inj,
      String.toList_ofList]
  rw [hnormalize]
  constructor
  · intro h
    obtain ⟨before, after, hparts, hbefore, hafter⟩ := Text.exists_trimChars selector.toList
    exact ⟨before, _, after, hparts, hbefore, hafter, h⟩
  · rintro ⟨before, word, after, hparts, hbefore, hafter, hword⟩
    have hblank : ∀ c ∈ word, isBlank c = false := by
      intro c hc
      rw [← Text.isBlank_toLower]
      exact hname.not_isBlank _ (hword ▸ List.mem_map_of_mem hc)
    have hwordne : word ≠ [] := by
      rintro rfl
      exact hname.toList_ne_nil hword.symm
    rw [hparts, Text.trimChars_append hbefore hblank hwordne hafter, hword]

theorem names_iff : Names selector d ↔ normalize selector ∈ d.names := by
  constructor
  · rintro ⟨name, hmem, hparts⟩
    rwa [(normalize_eq_iff (isWord_of_mem_names hmem)).mpr hparts]
  · intro hmem
    exact ⟨_, hmem, (normalize_eq_iff (isWord_of_mem_names hmem)).mp rfl⟩

theorem select_eq_ok_iff : select selector = .ok d ↔ Names selector d := by
  rw [names_iff, ← ofName?_eq_some_iff, select]
  cases ofName? (normalize selector) <;> simp

theorem select_eq_error_iff {e : LoadError} : select selector = .error e ↔
    (∀ d, ¬ Names selector d) ∧ e = .unknownDevice (normalize selector) := by
  simp only [names_iff, ← ofName?_eq_some_iff]
  rw [select]
  cases ofName? (normalize selector) <;> simp [eq_comm]

/-- A selector names one device at most. -/
theorem Names.eq {d' : Device} (h : Names selector d) (h' : Names selector d') : d = d' := by
  rw [← select_eq_ok_iff] at h h'
  exact Except.ok.inj (h.symm.trans h')

end DecodingDesk.Device

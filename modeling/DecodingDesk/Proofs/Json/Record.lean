import DecodingDesk.Json.Record
import DecodingDesk.Proofs.Entries
/-!
# Reading lists and records back

A list that was written item by item is read back if all its items are, and a record whose
fields have known names is read back field by field.
-/

namespace DecodingDesk.Json

variable {α β : Type}

/-- What was written for `x` is read back if `x` is good, and is refused if it is not. -/
def ReadsBack (write : α → Value) (read : Value → Option α) (good : α → Bool) (x : α) : Prop :=
  read (write x) = if good x then some x else none

theorem ReadsBack.toList? {write : α → Value} {read : Value → Option α} {good : α → Bool}
    {xs : List α} (h : ∀ x ∈ xs, ReadsBack write read good x) :
    ReadsBack (fun xs => .arr (xs.map write)) (Value.toList? read) (·.all good) xs := by
  simp only [ReadsBack, Value.toList?]
  induction xs with
  | nil => rfl
  | cons x xs ih =>
    have hx : read (write x) = _ := h x List.mem_cons_self
    have hxs := ih fun y hy => h y (List.mem_cons_of_mem x hy)
    rw [List.map_cons, List.mapM_cons, hx, hxs]
    by_cases hgood : good x <;> by_cases hall : xs.all good <;>
      simp [-List.all_eq_true, hgood, hall]

/-- A wrapper that is not written does not matter. -/
theorem ReadsBack.map {write : α → Value} {read : Value → Option α} {good : α → Bool} {x : α}
    (h : ReadsBack write read good x) (wrap : α → β) (unwrap : β → α)
    (hunwrap : unwrap (wrap x) = x) :
    ReadsBack (fun y => write (unwrap y)) (fun v => (read v).map wrap)
      (fun y => good (unwrap y)) (wrap x) := by
  simp only [ReadsBack, hunwrap] at h ⊢
  rw [h]
  cases good x <;> rfl

theorem readsBack_text (s : String) :
    ReadsBack Value.text Value.toText? (fun _ => true) s := rfl

theorem readsBack_texts (ts : List String) :
    ReadsBack Value.texts Value.toTexts? (fun _ => true) ts := by
  have h := ReadsBack.toList? fun t (_ : t ∈ ts) => readsBack_text t
  simpa [ReadsBack, Value.texts, Value.toTexts?] using h

/-! ## Records -/

theorem mapM_name_eq_some_iff {members : List (Option String × Value)} {named : Fields} :
    (members.mapM fun m => m.1.map fun name => (name, m.2)) = some named ↔
      members = named.map fun m => (some m.1, m.2) := by
  induction members generalizing named with
  | nil => cases named <;> simp
  | cons m members ih =>
    obtain ⟨name, v⟩ := m
    rw [List.mapM_cons]
    cases name with
    | none => cases named <;> simp
    | some name =>
      simp only [Option.map_some, Option.bind_eq_bind, Option.bind_some, Option.bind_eq_some_iff,
        ih, Option.pure_def, Option.some.injEq]
      constructor
      · rintro ⟨rest, rfl, rfl⟩
        rfl
      · intro h
        cases named with
        | nil => cases h
        | cons n rest =>
          obtain ⟨hhead, htail⟩ := List.cons.inj h
          cases hhead
          exact ⟨rest, htail, rfl⟩

theorem knownMembers_eq_some_iff {known : List String} {members : List (Option String × Value)}
    {fields : Fields} : knownMembers known members = some fields ↔
      ∃ named : Fields, members = named.map (fun m => (some m.1, m.2)) ∧
        fields = named.filter (fun m => known.contains m.1) ∧ (fields.map Prod.fst).Nodup := by
  unfold knownMembers
  simp only [Option.bind_eq_bind, Option.bind_eq_some_iff, mapM_name_eq_some_iff]
  refine exists_congr fun named => and_congr_right fun _ => ?_
  split
  · rename_i hnodup
    rw [Option.some.injEq]
    exact ⟨fun h => ⟨h.symm, h ▸ hnodup⟩, fun h => h.1.symm⟩
  · rename_i hnot
    refine ⟨nofun, fun h => absurd ?_ hnot⟩
    rw [← h.1]
    exact h.2

theorem knownMembers_map {known : List String} {fields : Fields}
    (hknown : ∀ m ∈ fields, m.1 ∈ known) (hnodup : (fields.map Prod.fst).Nodup) :
    knownMembers known (fields.map fun m => (some m.1, m.2)) = some fields := by
  have hfilter : fields.filter (fun m => known.contains m.1) = fields := by
    rw [List.filter_eq_self]
    exact fun m hm => List.contains_iff_mem.mpr (hknown m hm)
  exact knownMembers_eq_some_iff.mpr ⟨fields, rfl, hfilter.symm, hnodup⟩

theorem fields?_object {known : List String} {fields : Fields}
    (hknown : ∀ m ∈ fields, m.1 ∈ known) (hnodup : (fields.map Prod.fst).Nodup) :
    (Value.object fields).fields? known = some fields :=
  knownMembers_map hknown hnodup

/-- A field with a default is what is given for it, or the default if nothing is given. -/
theorem Fields.optional_eq_some_iff {fields : Fields} (hnodup : (fields.map Prod.fst).Nodup)
    {name : String} {read : Value → Option α} {default x : α} :
    fields.optional name read default = some x ↔
      (∀ v, (name, v) ∈ fields → read v = some x) ∧ ((∀ v, (name, v) ∉ fields) → x = default) := by
  unfold optional
  cases hlookup : fields.lookup name with
  | none =>
    have habsent := lookup_eq_none_iff_mem.mp hlookup
    simp [habsent, eq_comm]
  | some v =>
    have hmem := (lookup_eq_some_iff_mem hnodup).mp hlookup
    constructor
    · refine fun hread => ⟨fun w hw => ?_, fun habsent => absurd hmem (habsent v)⟩
      obtain rfl : v = w := by
        rw [← lookup_eq_some_iff_mem hnodup, hlookup] at hw
        exact Option.some.inj hw
      exact hread
    · exact fun h => h.1 v hmem

end DecodingDesk.Json

import DecodingDesk.CommandLine.Run
/-!
# What is on standard output

Whatever the filter, what a run prints is on standard output in the order in which it is printed,
with nothing but records around it.  With the default filter all that the run says is there and
no more, and with a filter that lets no record through what it prints is all there is.
-/

namespace DecodingDesk.CommandLine

variable {e : Ending} {filter : Filter} {shown : List Entry}

theorem Ending.Shows.filter_isPrinted (h : e.Shows filter shown) :
    shown.filter Entry.isPrinted = e.output.filter Entry.isPrinted := by
  obtain ⟨all, houtput, rfl⟩ := h
  rw [← houtput, List.filter_filter, List.filter_filter]
  refine List.filter_congr fun entry _ => ?_
  cases entry <;> rfl

theorem Ending.Shows.eq_filter_isPrinted (h : e.Shows filter shown)
    (hoff : ∀ r, filter r = false) : shown = e.output.filter Entry.isPrinted := by
  rw [← h.filter_isPrinted]
  obtain ⟨all, -, rfl⟩ := h
  rw [List.filter_filter]
  refine List.filter_congr fun entry _ => ?_
  cases entry with
  | printed text => rfl
  | record r => exact hoff r

/-! ## What a run says -/

/-- Entries without records of finer levels than `info`. -/
def Firm (entries : List Entry) : Prop :=
  ∀ entry ∈ entries, entry.passes (.upTo .info) = true

theorem Firm.append {before after : List Entry} (hbefore : Firm before) (hafter : Firm after) :
    Firm (before ++ after) :=
  List.forall_mem_append.mpr ⟨hbefore, hafter⟩

theorem firm_said (spec : Service.CallSpec) (reply : Option Service.CallReply) :
    Firm (said spec reply) := by
  unfold said Firm
  split
  · unfold documentRecords
    split
    · split
      · exact List.forall_mem_cons.mpr ⟨rfl, List.forall_mem_cons.mpr
          ⟨rfl, List.forall_mem_singleton.mpr rfl⟩⟩
      · exact List.forall_mem_singleton.mpr rfl
    · exact List.forall_mem_nil _
  · exact List.forall_mem_singleton.mpr rfl
  · exact List.forall_mem_singleton.mpr rfl
  · exact List.forall_mem_nil _

theorem firm_report (calls : List (Service.CallSpec × Option Service.CallReply)) :
    Firm (report calls).1 := by
  induction calls with
  | nil => exact List.forall_mem_nil _
  | cons call rest ih =>
    obtain ⟨spec, reply⟩ := call
    unfold report
    split
    · exact firm_said _ _
    · exact (firm_said _ _).append ih

theorem firm_failed {output : List Entry} (h : Firm output) (files : Files) (f : Failure) :
    Firm (failed output files f).output := by
  cases f with
  | error e => exact h.append (List.forall_mem_singleton.mpr rfl)
  | fault f => exact h

theorem firm_opening (config : Config) (service : Service) : Firm (opening config service) :=
  List.forall_mem_cons.mpr ⟨rfl, List.forall_mem_singleton.mpr rfl⟩

theorem firm_closing (service : Service) : Firm (closing service) :=
  List.forall_mem_singleton.mpr rfl

/-- A run says nothing of its own on finer levels than `info`. -/
theorem Command.firm_run (c : Command) (files : Files) (env : List (String × String)) :
    Firm (c.run files env).output := by
  unfold Command.run
  split
  · exact firm_failed (List.forall_mem_nil _) _ _
  · split
    · exact firm_failed (List.forall_mem_nil _) _ _
    · dsimp only
      split
      · exact ((firm_opening _ _).append (firm_report _)).append (firm_closing _)
      · exact firm_failed (((firm_opening _ _).append (firm_report _)).append (firm_closing _)) _ _

/-- With the default filter standard output is what the run says. -/
theorem Ending.shows_upTo_info_iff (h : Firm e.output) :
    e.Shows (.upTo .info) shown ↔ shown = e.output := by
  constructor
  · rintro ⟨all, houtput, rfl⟩
    exact houtput
  · rintro rfl
    have hall := List.filter_eq_self.mpr h
    exact ⟨_, hall, hall.symm⟩

/-- What a run prints is some entries.  They are on standard output whatever the filter, in their
order and with nothing but records around them, and they are all that is there when no record
is let through.  With the default filter all that the run says is there, and nothing else. -/
structure Ending.PrintsJust (ending : Ending) (entries : List Entry) : Prop where
  filtered : ∀ filter shown, ending.Shows filter shown → shown.filter Entry.isPrinted = entries
  alone : ∀ filter shown, (∀ r, filter r = false) → ending.Shows filter shown → shown = entries
  default : ∀ shown, ending.Shows (.upTo .info) shown ↔ shown = ending.output

theorem Ending.printsJust {entries : List Entry} (hfirm : Firm e.output)
    (hprinted : e.output.filter Entry.isPrinted = entries) : e.PrintsJust entries where
  filtered _ _ hshows := hshows.filter_isPrinted.trans hprinted
  alone _ _ hoff hshows := (hshows.eq_filter_isPrinted hoff).trans hprinted
  default _ := Ending.shows_upTo_info_iff hfirm

end DecodingDesk.CommandLine

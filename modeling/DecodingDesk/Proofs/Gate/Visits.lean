import DecodingDesk.Gate.House
import DecodingDesk.Proofs.Entries
/-!
# Who is inside a house

The counter of the gate is the number of visits in progress.  A visit that ends is
therefore counted, and nobody ever leaves a gate in which nobody is.
-/

namespace DecodingDesk.Gate

variable {α : Type}

theorem inFlight_enter (g : Gate) : g.enter.inFlight = g.inFlight + 1 := rfl

theorem inFlight_pass (g : Gate) : g.enter.leave.inFlight = g.inFlight := by
  rw [inFlight_leave, inFlight_enter, Nat.add_sub_cancel]

namespace House

variable {h : House α} {i : Nat}

/-- The counter of the gate counts the visits. -/
def Counted (h : House α) : Prop :=
  h.gate.inFlight = h.visits

/-- What an operation makes of a house in which the visits are counted.  Whoever arrives
or departs is counted once, and there is always somebody who can depart. -/
structure Keeps (h h' : House α) (arrivals departures : Nat) : Prop where
  counted : h'.Counted
  balance : h'.gate.inFlight + departures = h.gate.inFlight + arrivals

theorem Counted.keeps_self (hcount : h.Counted) : Keeps h h 0 0 :=
  ⟨hcount, rfl⟩

/-! ## Visits end only if they are counted -/

theorem Counted.pos_of_guards (hcount : h.Counted) (hguards : h.guards ≠ 0) :
    0 < h.gate.inFlight := by
  rw [hcount, visits]
  omega

theorem Counted.pos_of_run (hcount : h.Counted) (hi : h.runs[i]? = some .inside) :
    0 < h.gate.inFlight := by
  have hpos := List.count_pos_iff.mpr (List.mem_of_getElem? hi)
  rw [hcount, visits]
  omega

theorem Counted.pos_of_work (hcount : h.Counted) {b : Blocking α}
    (hi : h.blockings[i]? = some b) (hrunning : isRunning b = true) : 0 < h.gate.inFlight := by
  have hpos := List.countP_pos_iff.mpr ⟨b, List.mem_of_getElem? hi, hrunning⟩
  rw [hcount, visits]
  omega

private theorem leave_inFlight (hpos : 0 < h.gate.inFlight) :
    h.gate.leave.inFlight + 1 = h.gate.inFlight + 0 := by
  rw [inFlight_leave]
  omega

/-! ## Operations -/

/-- A future that was run through the gate is replaced, and the counter goes with it. -/
private theorem Counted.setRun (hcount : h.Counted) {r : Run} (hi : h.runs[i]? = some r)
    (next : Run) {g : Gate} (arrivals departures : Nat)
    (hbalance : g.inFlight + departures = h.gate.inFlight + arrivals)
    (hinside : (if next = .inside then 1 else 0) + departures =
      (if r = .inside then 1 else 0) + arrivals) :
    Keeps h { h with gate := g, runs := h.runs.set i next } arrivals departures := by
  have hset := count_set_add hi next .inside
  refine ⟨?_, hbalance⟩
  simp only [Counted, visits] at hcount ⊢
  omega

/-- The same for blocking work and its future. -/
private theorem Counted.setBlocking (hcount : h.Counted) {b : Blocking α}
    (hi : h.blockings[i]? = some b) (next : Blocking α) {g : Gate} (arrivals departures : Nat)
    (hbalance : g.inFlight + departures = h.gate.inFlight + arrivals)
    (hrunning : (if isRunning next then 1 else 0) + departures =
      (if isRunning b then 1 else 0) + arrivals) :
    Keeps h { h with gate := g, blockings := h.blockings.set i next } arrivals departures := by
  have hset := countP_set_add hi next isRunning
  refine ⟨?_, hbalance⟩
  simp only [Counted, visits] at hcount ⊢
  omega

theorem Counted.enter (hcount : h.Counted) : Keeps h (h.apply .enter).1 1 0 := by
  refine ⟨?_, rfl⟩
  simp only [Counted, visits, apply, inFlight_enter] at hcount ⊢
  omega

/-- A future that was only made is no visit. -/
theorem Counted.createRun (hcount : h.Counted) : Keeps h (h.apply .createRun).1 0 0 := by
  refine ⟨?_, rfl⟩
  simp only [Counted, visits, apply, List.count_append] at hcount ⊢
  exact hcount

theorem Counted.createBlocking (hcount : h.Counted) :
    Keeps h (h.apply .createBlocking).1 0 0 := by
  refine ⟨?_, rfl⟩
  simp only [Counted, visits, apply, List.countP_append] at hcount ⊢
  exact hcount

theorem Counted.dropGuard (hcount : h.Counted) :
    Keeps h (h.apply .dropGuard).1 0 (if h.guards = 0 then 0 else 1) := by
  simp only [apply]
  split
  · exact hcount.keeps_self
  · rename_i hguards
    have hpos := hcount.pos_of_guards hguards
    refine ⟨?_, by simp only [inFlight_leave]; omega⟩
    simp only [Counted, visits, inFlight_leave] at hcount ⊢
    omega

theorem Counted.pollRun (hcount : h.Counted) (i : Nat) (inner : Option α) :
    Keeps h (h.pollRun i inner).1 (if h.runs[i]? = some .created then 1 else 0)
      (if inner.isSome ∧ (h.runs[i]? = some .created ∨ h.runs[i]? = some .inside)
        then 1 else 0) := by
  cases hi : h.runs[i]? with
  | none => simpa [House.pollRun, hi] using hcount.keeps_self
  | some r =>
    cases r with
    | created =>
      cases inner with
      | none =>
        simpa [House.pollRun, hi] using hcount.setRun hi .inside 1 0 (inFlight_enter h.gate) rfl
      | some a =>
        have hpass := congrArg (· + 1) (inFlight_pass h.gate)
        simpa [House.pollRun, hi] using hcount.setRun hi .over 1 1 hpass rfl
    | inside =>
      cases inner with
      | none => simpa [House.pollRun, hi] using hcount.keeps_self
      | some a =>
        have hleave := leave_inFlight (hcount.pos_of_run hi)
        simpa [House.pollRun, hi] using hcount.setRun hi .over 0 1 hleave rfl
    | _ => cases inner <;> simpa [House.pollRun, hi] using hcount.keeps_self

theorem Counted.dropRun (hcount : h.Counted) (i : Nat) :
    Keeps h (h.dropRun i) 0 (if h.runs[i]? = some .inside then 1 else 0) := by
  cases hi : h.runs[i]? with
  | none => simpa [House.dropRun, hi] using hcount.keeps_self
  | some r =>
    cases r with
    | created => simpa [House.dropRun, hi] using hcount.setRun hi .over (g := h.gate) 0 0 rfl rfl
    | inside =>
      have hleave := leave_inFlight (hcount.pos_of_run hi)
      simpa [House.dropRun, hi] using hcount.setRun hi .over 0 1 hleave rfl
    | _ => simpa [House.dropRun, hi] using hcount.keeps_self

theorem Counted.pollBlocking (hcount : h.Counted)
    (hunsent : ∀ b, h.blockings[i]? = some b → b.caller = .created → b.work = .unsent)
    (accepts : Bool) :
    Keeps h (h.pollBlocking i accepts).1
      (if (h.blockings[i]?).map Blocking.caller = some .created then 1 else 0)
      (if accepts = false ∧ (h.blockings[i]?).map Blocking.caller = some .created
        then 1 else 0) := by
  cases hi : h.blockings[i]? with
  | none => simpa [House.pollBlocking, hi] using hcount.keeps_self
  | some b =>
    obtain ⟨caller, work⟩ := b
    cases caller with
    | created =>
      obtain rfl : work = .unsent := hunsent _ hi rfl
      cases accepts with
      | true =>
        simpa [House.pollBlocking, hi] using
          hcount.setBlocking hi ⟨.inside, .running⟩ 1 0 (inFlight_enter h.gate) rfl
      | false =>
        have hpass := congrArg (· + 1) (inFlight_pass h.gate)
        simpa [House.pollBlocking, hi] using hcount.setBlocking hi ⟨.over, .refused⟩ 1 1 hpass rfl
    | inside =>
      cases work with
      | ended e =>
        simpa [House.pollBlocking, hi] using
          hcount.setBlocking hi ⟨.over, .ended e⟩ (g := h.gate) 0 0 rfl rfl
      | _ => simpa [House.pollBlocking, hi] using hcount.keeps_self
    | _ => simpa [House.pollBlocking, hi] using hcount.keeps_self

theorem Counted.endWork (hcount : h.Counted) (i : Nat) (e : Ending α) :
    Keeps h (h.endWork i e) 0 (if (h.blockings[i]?).any isRunning then 1 else 0) := by
  cases hi : h.blockings[i]? with
  | none => simpa [House.endWork, hi] using hcount.keeps_self
  | some b =>
    obtain ⟨caller, work⟩ := b
    cases work with
    | running =>
      have hleave := leave_inFlight (hcount.pos_of_work hi rfl)
      simpa [House.endWork, hi, isRunning] using
        hcount.setBlocking hi ⟨caller, .ended e⟩ 0 1 hleave rfl
    | _ => simpa [House.endWork, hi, isRunning] using hcount.keeps_self

/-- Work goes on when its caller gives up. -/
theorem Counted.dropBlocking (hcount : h.Counted) (i : Nat) :
    Keeps h (h.dropBlocking i) 0 0 := by
  unfold House.dropBlocking
  split
  · rename_i b hi
    exact hcount.setBlocking hi { b with caller := .over } (g := h.gate) 0 0 rfl rfl
  · exact hcount.keeps_self

theorem Counted.pollDrained (hcount : h.Counted) (i : Nat) :
    Keeps h (h.pollDrained i).1 0 0 := by
  unfold House.pollDrained
  split
  · exact hcount.keeps_self
  · exact ⟨hcount, rfl⟩

end House

end DecodingDesk.Gate

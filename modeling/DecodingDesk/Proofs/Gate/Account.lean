import DecodingDesk.Proofs.Gate.History
/-!
# The account of a gate

After any operations the counter is the number of guards that were not dropped, of run
futures that were polled and neither completed nor dropped, and of blocking work that
was taken and has not ended.  It is zero exactly when none of these is left.  All clones of
a gate share one counter, so a history does not say through which of them an operation
was done.
-/

namespace DecodingDesk.Gate

variable {α : Type} {ops : List (Op α)} {i : Nat}

/-! ## What the history says about the next operation -/

def caller? (ops : List (Op α)) (i : Nat) : Option Run :=
  (blocking? ops i).map Blocking.caller

def work? (ops : List (Op α)) (i : Nat) : Option (Work α) :=
  (blocking? ops i).map Blocking.work

/-- Whether a run future was neither completed nor dropped. -/
def IsPending (ops : List (Op α)) (i : Nat) : Prop :=
  run? ops i = some .created ∨ run? ops i = some .inside

instance : Decidable (IsPending ops i) :=
  inferInstanceAs (Decidable (_ ∨ _))

/-- How many visits begin with an operation. -/
def arrivals (ops : List (Op α)) : Op α → Nat
  | .enter => 1
  | .pollRun i _ => if run? ops i = some .created then 1 else 0
  | .pollBlocking i _ => if caller? ops i = some .created then 1 else 0
  | _ => 0

/-- How many visits end with it.  Refused work is a visit that ends at once. -/
def departures (ops : List (Op α)) : Op α → Nat
  | .dropGuard => if liveGuards ops = 0 then 0 else 1
  | .pollRun i inner => if inner.isSome ∧ IsPending ops i then 1 else 0
  | .dropRun i => if run? ops i = some .inside then 1 else 0
  | .pollBlocking i accepts => if accepts = false ∧ caller? ops i = some .created then 1 else 0
  | .endWork i _ => if isUnfinished ops i then 1 else 0
  | _ => 0

/-- What the caller of blocking work is told about its ending. -/
inductive Reports : Ending α → Except Error α → Prop where
  | value (a : α) : Reports (.value a) (.ok a)
  | error (e : Error) : Reports (.error e) (.error e)
  | panic (e : EngineError) (htext : e.reason = "blocking translation task panicked") :
      Reports .panic (.error (.engine e))

theorem Ending.reports_answer (e : Ending α) : Reports e e.answer := by
  cases e with
  | value a => exact .value a
  | error e => exact .error e
  | panic => exact .panic .taskPanicked rfl

namespace House

/-! ## Counting -/

theorem guards_apply (h : House α) (op : Op α) :
    (h.apply op).1.guards =
      match op with
      | .enter => h.guards + 1
      | .dropGuard => h.guards - 1
      | _ => h.guards := by
  cases op with
  | dropGuard =>
    simp only [apply]
    split <;> simp_all
  | pollRun k inner =>
    simp only [apply, House.pollRun]
    split <;> rfl
  | dropRun k =>
    simp only [apply, House.dropRun]
    split <;> rfl
  | pollBlocking k accepts =>
    simp only [apply, House.pollBlocking]
    split
    · split <;> rfl
    all_goals rfl
  | endWork k e =>
    simp only [apply, House.endWork]
    split <;> rfl
  | dropBlocking k =>
    simp only [apply, House.dropBlocking]
    split <;> rfl
  | pollDrained k =>
    simp only [apply, House.pollDrained]
    split <;> rfl
  | enter | createRun | createBlocking | createDrained | dropDrained => rfl

theorem guards_eq (ops : List (Op α)) : (applyAll {} ops).guards = liveGuards ops := by
  induction ops using List.reverseRecOn with
  | nil => rfl
  | append_singleton ops op ih =>
    rw [applyAll_concat, guards_apply, ih, liveGuards, liveGuards, List.foldl_append]
    rfl

theorem count_runs (ops : List (Op α)) : (applyAll {} ops).runs.count .inside = openRuns ops := by
  rw [List.count, countP_eq_countP_range, length_runs, openRuns]
  apply List.countP_congr
  intro i _
  rw [getElem?_runs, isOpen]
  cases run? ops i <;> simp

theorem countP_blockings (ops : List (Op α)) :
    (applyAll {} ops).blockings.countP isRunning = unfinishedWork ops := by
  rw [countP_eq_countP_range, length_blockings, unfinishedWork]
  apply List.countP_congr
  intro i _
  rw [getElem?_blockings, isUnfinished]

/-- Work is sent by the first use of its future. -/
theorem unsent_of_created (ops : List (Op α)) {b : Blocking α}
    (hb : (applyAll {} ops).blockings[i]? = some b) (hcaller : b.caller = .created) :
    b.work = .unsent := by
  rw [getElem?_blockings, blocking?] at hb
  obtain ⟨later, -, rfl⟩ := Option.map_eq_some_iff.mp hb
  rw [Blocking.after_eq_new hcaller]

/-- Every operation finds the visits counted and leaves them counted. -/
theorem Counted.apply (hcount : (applyAll {} ops).Counted) (op : Op α) :
    Keeps (applyAll {} ops) ((applyAll {} ops).apply op).1 (arrivals ops op)
      (departures ops op) := by
  cases op with
  | enter => exact hcount.enter
  | dropGuard => simpa only [arrivals, departures, ← guards_eq] using hcount.dropGuard
  | createRun => exact hcount.createRun
  | pollRun i inner =>
    simpa only [House.apply, arrivals, departures, IsPending, ← getElem?_runs] using
      hcount.pollRun i inner
  | dropRun i =>
    simpa only [House.apply, arrivals, departures, ← getElem?_runs] using hcount.dropRun i
  | createBlocking => exact hcount.createBlocking
  | pollBlocking i accepts =>
    simpa only [House.apply, arrivals, departures, caller?, ← getElem?_blockings] using
      hcount.pollBlocking (fun _ => unsent_of_created ops) accepts
  | endWork i e =>
    simpa only [House.apply, arrivals, departures, isUnfinished, ← getElem?_blockings] using
      hcount.endWork i e
  | dropBlocking i => exact hcount.dropBlocking i
  | pollDrained i => exact hcount.pollDrained i
  | createDrained | dropDrained => exact ⟨hcount, rfl⟩

theorem counted_applyAll (ops : List (Op α)) : (applyAll {} ops).Counted := by
  induction ops using List.reverseRecOn with
  | nil => rfl
  | append_singleton ops op ih =>
    rw [applyAll_concat]
    exact (ih.apply op).counted

theorem inFlight_applyAll (ops : List (Op α)) :
    (applyAll {} ops).gate.inFlight = liveGuards ops + openRuns ops + unfinishedWork ops := by
  rw [counted_applyAll ops, visits, guards_eq, count_runs, countP_blockings]

/-- Work whose caller has given up still counts. -/
example :
    (applyAll {} [.createBlocking, .pollBlocking 0 true, .dropBlocking 0] :
      House Nat).gate.inFlight = 1 := by
  decide

/-! ## When the counter is zero -/

private theorem countP_range_eq_zero {n : Nat} {f : Nat → Bool} (hf : ∀ i, n ≤ i → f i = false) :
    (List.range n).countP f = 0 ↔ ∀ i, f i = false := by
  rw [List.countP_eq_zero]
  constructor
  · intro hnone i
    rcases Nat.lt_or_ge i n with hi | hi
    · exact Bool.eq_false_iff.mpr (hnone i (List.mem_range.mpr hi))
    · exact hf i hi
  · intro hnone i _
    rw [hnone i]
    exact Bool.noConfusion

theorem openRuns_eq_zero_iff (ops : List (Op α)) :
    openRuns ops = 0 ↔ ∀ i, isOpen ops i = false := by
  refine countP_range_eq_zero fun i hi => ?_
  rw [← length_runs] at hi
  rw [isOpen, ← getElem?_runs, List.getElem?_eq_none hi]
  rfl

theorem unfinishedWork_eq_zero_iff (ops : List (Op α)) :
    unfinishedWork ops = 0 ↔ ∀ i, isUnfinished ops i = false := by
  refine countP_range_eq_zero fun i hi => ?_
  rw [← length_blockings] at hi
  rw [isUnfinished, ← getElem?_blockings, List.getElem?_eq_none hi]
  rfl

theorem inFlight_eq_zero_iff (ops : List (Op α)) :
    (applyAll {} ops).gate.inFlight = 0 ↔
      liveGuards ops = 0 ∧ (∀ i, isOpen ops i = false) ∧ ∀ i, isUnfinished ops i = false := by
  rw [inFlight_applyAll, Nat.add_eq_zero_iff, Nat.add_eq_zero_iff, openRuns_eq_zero_iff,
    unfinishedWork_eq_zero_iff, and_assoc]

/-! ## Futures that were never polled -/

theorem gate_dropRun (hi : isOpen ops i = false) :
    ((applyAll {} ops).dropRun i).gate = (applyAll {} ops).gate := by
  rw [isOpen, ← getElem?_runs, decide_eq_false_iff_not] at hi
  unfold House.dropRun
  split
  · rfl
  · contradiction
  · rfl

theorem gate_dropBlocking (h : House α) (i : Nat) : (h.dropBlocking i).gate = h.gate := by
  unfold House.dropBlocking
  split <;> rfl

/-! ## Answers -/

theorem yield_pollRun (ops : List (Op α)) (i : Nat) (inner : Option α) :
    ((applyAll {} ops).pollRun i inner).2 =
      if IsPending ops i then inner.map .value else none := by
  simp only [IsPending, ← getElem?_runs]
  cases hi : (applyAll {} ops).runs[i]? with
  | none => simp [House.pollRun, hi]
  | some r => cases r <;> cases inner <;> simp [House.pollRun, hi]

theorem yield_pollBlocking_iff (ops : List (Op α)) (i : Nat) (accepts : Bool) (y : Yield α) :
    ((applyAll {} ops).pollBlocking i accepts).2 = some y ↔
      (caller? ops i = some .created ∧ accepts = false ∧
          y = .answer (.error (.engine .taskRefused))) ∨
        ∃ e, caller? ops i = some .inside ∧ work? ops i = some (.ended e) ∧
          y = .answer e.answer := by
  simp only [caller?, work?, ← getElem?_blockings]
  cases hi : (applyAll {} ops).blockings[i]? with
  | none => simp [House.pollBlocking, hi]
  | some b =>
    obtain ⟨caller, work⟩ := b
    cases caller <;> cases work <;> cases accepts <;> simp [House.pollBlocking, hi, eq_comm]

end House

/-! ## The account -/

/-- What the history says about a house. -/
structure Balanced (ops : List (Op α)) (h : House α) : Prop where
  inFlight_eq : h.gate.inFlight = liveGuards ops + openRuns ops + unfinishedWork ops
  eq_zero_iff : h.gate.inFlight = 0 ↔
    liveGuards ops = 0 ∧ (∀ i, isOpen ops i = false) ∧ ∀ i, isUnfinished ops i = false
  /-- Every visit is counted once and leaves once, and the counter never falls below zero. -/
  balance : ∀ op,
    (h.apply op).1.gate.inFlight + departures ops op = h.gate.inFlight + arrivals ops op
  made : (h.apply .createRun).1.gate = h.gate ∧ (h.apply .createBlocking).1.gate = h.gate
  run_dropped : ∀ i, isOpen ops i = false → (h.apply (.dropRun i)).1.gate = h.gate
  /-- Work that was taken goes on without its caller. -/
  blocking_dropped : ∀ i, (h.apply (.dropBlocking i)).1.gate = h.gate
  run_yields : ∀ i inner,
    (h.apply (.pollRun i inner)).2 = if IsPending ops i then inner.map .value else none
  blocking_yields : ∀ i accepts y,
    (h.apply (.pollBlocking i accepts)).2 = some y ↔
      (caller? ops i = some .created ∧ accepts = false ∧
          y = .answer (.error (.engine .taskRefused))) ∨
        ∃ e, caller? ops i = some .inside ∧ work? ops i = some (.ended e) ∧
          y = .answer e.answer
  reports : ∀ e : Ending α, Reports e e.answer

theorem House.balanced_applyAll (ops : List (Op α)) : Balanced ops (applyAll {} ops) where
  inFlight_eq := inFlight_applyAll ops
  eq_zero_iff := inFlight_eq_zero_iff ops
  balance op := ((counted_applyAll ops).apply op).balance
  made := ⟨rfl, rfl⟩
  run_dropped _ := gate_dropRun
  blocking_dropped := gate_dropBlocking _
  run_yields := yield_pollRun ops
  blocking_yields := yield_pollBlocking_iff ops
  reports := Ending.reports_answer

end DecodingDesk.Gate

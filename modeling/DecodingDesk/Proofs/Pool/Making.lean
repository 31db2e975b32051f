import DecodingDesk.Pool.Making
/-!
# What making a pool comes to

Starting workers from a pool of some gives a pool of more, up to the first worker that gets
no thread.  So making a pool succeeds, with all workers there, when there is room and each
gets its thread; else the error names the first that did not.
-/

namespace DecodingDesk.Pool

variable {threads : Threads} {model : Model} {size n k j : Nat} {reason : String}

@[simp] theorem size_start (n : Nat) : (start n).size = n :=
  List.length_replicate

@[simp] theorem hire_start (n : Nat) : (start n).hire = start (n + 1) := by
  simp [hire, start, List.replicate_succ']

/-! ## Starting workers -/

theorem staff_start_of_granted (h : ∀ i < n, threads (k + i) = none) :
    staff threads n (start k) = (start (k + n), none) := by
  induction n generalizing k with
  | zero => rfl
  | succ n ih =>
    have hfirst : threads k = none := h 0 (Nat.succ_pos n)
    have hrest : ∀ i < n, threads (k + 1 + i) = none := by
      intro i hi
      rw [Nat.add_assoc, Nat.add_comm 1 i]
      exact h (i + 1) (Nat.succ_lt_succ hi)
    rw [staff, size_start, hfirst]
    simp only [hire_start]
    rw [ih hrest, Nat.add_assoc, Nat.add_comm 1 n]

theorem staff_start_of_refused (hj : j < n) (hbefore : ∀ i < j, threads (k + i) = none)
    (hrefused : threads (k + j) = some reason) :
    staff threads n (start k) = (start (k + j), some (.threadRefused (k + j) reason)) := by
  induction j generalizing n k with
  | zero =>
    obtain ⟨m, rfl⟩ := Nat.exists_eq_succ_of_ne_zero (Nat.ne_of_gt hj)
    rw [Nat.add_zero] at hrefused ⊢
    rw [staff, size_start, hrefused]
  | succ j ih =>
    obtain ⟨m, rfl⟩ := Nat.exists_eq_succ_of_ne_zero (Nat.ne_of_gt (Nat.zero_lt_of_lt hj))
    have hfirst : threads k = none := hbefore 0 (Nat.succ_pos j)
    have hmove : ∀ i, k + 1 + i = k + (i + 1) := fun i => by omega
    rw [staff, size_start, hfirst]
    simp only [hire_start]
    rw [ih (Nat.lt_of_succ_lt_succ hj) (fun i hi => ?_) (by rw [hmove, hrefused]), hmove]
    rw [hmove]
    exact hbefore (i + 1) (Nat.succ_lt_succ hi)

/-! ## Making a pool -/

/-- So many workers can be started: there is room for them, and each gets its thread. -/
structure Threads.Suffice (threads : Threads) (size : Nat) : Prop where
  fits : fitsMemory size = true
  granted : ∀ i < size, threads i = none

theorem Threads.suffice_granted (h : fitsMemory size = true) : Threads.granted.Suffice size :=
  ⟨h, fun _ _ => rfl⟩

/-- The first worker that gets no thread. -/
structure Threads.Refuses (threads : Threads) (size worker : Nat) (reason : String) : Prop where
  lt : worker < size
  granted : ∀ i < worker, threads i = none
  refused : threads worker = some reason

theorem Threads.Refuses.not_granted (h : threads.Refuses size j reason) :
    ¬ ∀ i < size, threads i = none := by
  intro hgranted
  have hrefused := h.refused
  rw [hgranted j h.lt] at hrefused
  cases hrefused

theorem Threads.granted_or_refuses (threads : Threads) (size : Nat) :
    (∀ i < size, threads i = none) ∨ ∃ worker reason, threads.Refuses size worker reason := by
  induction size with
  | zero => exact .inl fun i hi => absurd hi (Nat.not_lt_zero i)
  | succ size ih =>
    rcases ih with hall | ⟨worker, reason, hrefuses⟩
    · cases hlast : threads size with
      | none =>
        refine .inl fun i hi => ?_
        rcases Nat.lt_succ_iff_lt_or_eq.mp hi with hi | rfl
        · exact hall i hi
        · exact hlast
      | some reason => exact .inr ⟨size, reason, Nat.lt_succ_self size, hall, hlast⟩
    · exact .inr ⟨worker, reason, Nat.lt_succ_of_lt hrefuses.lt, hrefuses.granted,
        hrefuses.refused⟩

theorem make_of_suffice (hsize : 0 < size) (h : threads.Suffice size) :
    make threads model size = { started := size, result := .ok (start size) } := by
  have hstaff : staff threads size (start 0) = (start size, none) := by
    simpa using staff_start_of_granted (k := 0) (fun i hi => by simpa using h.granted i hi)
  rw [make, if_neg (Nat.ne_of_gt hsize), if_pos h.fits, hstaff]
  simp only [size_start]

theorem make_of_refuses (hfits : fitsMemory size = true)
    (h : threads.Refuses size j reason) :
    make threads model size =
      { started := j
        dismissed := some (shut model (start j))
        result := .error (.error (.engine (.threadRefused j reason))) } := by
  have hstaff : staff threads size (start 0) = (start j, some (.threadRefused j reason)) := by
    simpa using staff_start_of_refused (k := 0) h.lt (fun i hi => by simpa using h.granted i hi)
      (by simpa using h.refused)
  rw [make, if_neg (Nat.ne_of_gt (Nat.zero_lt_of_lt h.lt)), if_pos hfits, hstaff]
  simp only [size_start]

/-- Making a pool fails before a worker is started, fails at the first worker that gets no
thread, or gives a pool in which all workers are there. -/
inductive Made (threads : Threads) (model : Model) (size : Nat) : Making → Prop where
  | empty (h : size = 0) :
      Made threads model size { result := .error (.error (.engine .emptyPool)) }
  | noRoom (h : fitsMemory size = false) :
      Made threads model size { result := .error (.fault .capacityOverflow) }
  | refused {worker : Nat} {reason : String} (h : threads.Refuses size worker reason) :
      Made threads model size
        { started := worker
          dismissed := some (shut model (start worker))
          result := .error (.error (.engine (.threadRefused worker reason))) }
  | all (hsize : 0 < size) (h : threads.Suffice size) :
      Made threads model size { started := size, result := .ok (start size) }

theorem made_make (threads : Threads) (model : Model) (size : Nat) :
    Made threads model size (make threads model size) := by
  by_cases hsize : size = 0
  · rw [make, if_pos hsize]
    exact .empty hsize
  · cases hfits : fitsMemory size with
    | false =>
      rw [make, if_neg hsize, hfits]
      exact .noRoom hfits
    | true =>
      rcases threads.granted_or_refuses size with hall | ⟨worker, reason, hrefuses⟩
      · have hsuffice : threads.Suffice size := ⟨hfits, hall⟩
        rw [make_of_suffice (Nat.pos_of_ne_zero hsize) hsuffice]
        exact .all (Nat.pos_of_ne_zero hsize) hsuffice
      · rw [make_of_refuses hfits hrefuses]
        exact .refused hrefuses

end DecodingDesk.Pool

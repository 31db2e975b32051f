import DecodingDesk.Proofs.Pool.Accounting
/-!
# Notifications

A post notifies one sleeper after its job is in the queue, and a worker may take the
job before the one that was notified looks.  What keeps a job from waiting for ever
is a count: as long as somebody sleeps, the jobs in the queue are no more than the
notifications that are still to be given or still to be acted on.
-/

namespace DecodingDesk.Pool

variable {size : Nat} {p p' : Pool} {a : Action}

/-- No notification is lost. -/
structure Attended (p : Pool) : Prop where
  queue_le : .asleep ∈ p.workers → p.queue.length ≤ p.unnotified + p.workers.count .woken
  phase : .asleep ∈ p.workers → p.phase = .serving ∨ p.phase = .closed

theorem attended_start (size : Nat) : (Pool.start size).Attended where
  queue_le _ := by simp [Pool.start]
  phase _ := .inl rfl

private theorem asleep_mem_of_set {ws : List Worker} {i : Nat} {w : Worker} (hw : w ≠ .asleep)
    (h : .asleep ∈ ws.set i w) : .asleep ∈ ws := by
  rcases List.mem_or_eq_of_mem_set h with h | h
  · exact h
  · exact absurd h.symm hw

/-- A worker is replaced by one that is awake: a notification that is used up has to take a job
with it. -/
private theorem attended_of_set (h : p.Attended) {i : Nat} {w v : Worker}
    (hworker : p.workers[i]? = some w) (hv : v ≠ .asleep)
    (hworkers : p'.workers = p.workers.set i v) (hphase : p'.phase = p.phase)
    (hbalance : p'.queue.length + p.unnotified + (if w = .woken then 1 else 0) ≤
      p.queue.length + p'.unnotified + (if v = .woken then 1 else 0)) : p'.Attended := by
  have hslept : .asleep ∈ p'.workers → .asleep ∈ p.workers := by
    rw [hworkers]
    exact asleep_mem_of_set hv
  refine ⟨?_, fun hasleep => hphase ▸ h.phase (hslept hasleep)⟩
  intro hasleep
  have hlength := h.queue_le (hslept hasleep)
  have hwoken := count_set_add hworker v .woken
  rw [hworkers]
  omega

theorem Attended.step (h : p.Attended) (hstep : Step p a p') : p'.Attended := by
  cases hstep with
  | post batch options hphase =>
    refine ⟨?_, h.phase⟩
    intro hasleep
    have := h.queue_le hasleep
    simp only [Pool.post, List.length_append, List.length_singleton] at *
    omega
  | notifyNobody howed hnone => exact ⟨fun h => absurd h hnone, fun h => absurd h hnone⟩
  | wake howed hworker =>
    refine attended_of_set h hworker (by simp) rfl rfl ?_
    simp only [howed, reduceCtorEq, if_true, if_false]
    omega
  | take hworker hlooks hqueue =>
    refine attended_of_set h hworker (by simp) rfl rfl ?_
    simp only [hqueue, List.length_cons, reduceCtorEq, if_false]
    split <;> omega
  -- who goes to sleep or leaves has seen an empty queue
  | sleep hworker hlooks hqueue hphase =>
    exact ⟨fun _ => by simp [hqueue], fun _ => .inl hphase⟩
  | leave hworker hlooks hqueue hphase =>
    exact ⟨fun _ => by simp [hqueue],
      fun hasleep => h.phase (asleep_mem_of_set (by simp) hasleep)⟩
  | answer hworker hverdict | die hworker hverdict =>
    refine attended_of_set h hworker (by simp) rfl rfl ?_
    simp only [reduceCtorEq, if_false, Nat.le_refl]
  | forget id => exact ⟨h.queue_le, h.phase⟩
  | close hphase => exact ⟨h.queue_le, fun _ => .inr rfl⟩
  | wakeAll hphase =>
    have hnone : Worker.asleep ∉ p.workers.map Worker.wake := by
      intro hmem
      obtain ⟨w, _, hwake⟩ := List.mem_map.mp hmem
      cases w <;> cases hwake
    exact ⟨fun hasleep => absurd hasleep hnone, fun hasleep => absurd hasleep hnone⟩
  | join hphase hgone =>
    have hnone : Worker.asleep ∉ p.workers := fun hmem => by cases hgone _ hmem
    exact ⟨fun hasleep => absurd hasleep hnone, fun hasleep => absurd hasleep hnone⟩

theorem Reachable.attended (h : Reachable size p) : p.Attended := by
  induction h with
  | start => exact attended_start size
  | step a _ hstep ih => exact ih.step (step_of_step? hstep)

end DecodingDesk.Pool

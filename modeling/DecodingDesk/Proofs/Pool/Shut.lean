import DecodingDesk.Proofs.Pool.Work
/-!
# Shutting a pool down

A pool that runs by itself uses up the work that is left in it, so the steps for which it is
given time are enough.  Once it has been closed it stops when its workers are gone, whatever
the model does; and workers for whom there never was a job all leave.
-/

namespace DecodingDesk.Pool

variable {size n : Nat} {p p' : Pool} {a : Action} {model : Model} {held : Job → Bool}

/-! ## Running until nothing is next -/

theorem exists_of_advance? (h : advance? model held p = some p') :
    ∃ a, nextAction? model held p = some a ∧ Step p a p' := by
  obtain ⟨a, hnext, hstep⟩ := Option.bind_eq_some_iff.mp h
  exact ⟨a, hnext, step_of_step? hstep⟩

theorem nextAction?_of_advance? (h : advance? model held p = none) :
    nextAction? model held p = none := by
  cases hnext : nextAction? model held p with
  | none => rfl
  | some a =>
    obtain ⟨-, -, p', hstep⟩ := nextAction?_spec hnext
    rw [advance?, hnext, Option.bind_some, step?_of_step hstep] at h
    cases h

theorem work_lt_of_advance? (h : advance? model held p = some p') : p'.work < p.work := by
  obtain ⟨a, hnext, hstep⟩ := exists_of_advance? h
  rcases (nextAction?_spec hnext).1 with hactor | ⟨hphase, rfl⟩
  · exact hstep.work_lt hactor
  · cases hstep with
    | wakeAll => exact work_wakeAll hphase

theorem nextAction?_advance (h : p.work ≤ n) :
    nextAction? model held (advance model held n p) = none := by
  apply nextAction?_of_advance?
  induction n generalizing p with
  | zero =>
    rw [advance]
    cases hadvance : advance? model held p with
    | none => rfl
    | some p' =>
      have := work_lt_of_advance? hadvance
      omega
  | succ n ih =>
    rw [advance]
    cases hadvance : advance? model held p with
    | none => exact hadvance
    | some p' =>
      have := work_lt_of_advance? hadvance
      exact ih (by omega)

/-- What each step keeps that can be next is kept by running. -/
theorem advance_induct {P : Pool → Prop}
    (hstep : ∀ p a p', P p → nextAction? model held p = some a → Step p a p' → P p')
    (h : P p) (n : Nat) : P (advance model held n p) := by
  induction n generalizing p with
  | zero => exact h
  | succ n ih =>
    rw [advance]
    cases hadvance : advance? model held p with
    | none => exact h
    | some p' =>
      obtain ⟨a, hnext, hp'⟩ := exists_of_advance? hadvance
      exact ih (hstep p a p' h hnext hp')

/-! ## Running after closing -/

/-- A pool that has been closed and not yet joined, with the jobs that were posted before. -/
structure Ending (size : Nat) (posted : List Job) (p : Pool) : Prop where
  reachable : Reachable size p
  phase : p.phase = .closed ∨ p.phase = .notified
  posted_eq : p.posted = posted

/-- Nobody posts, closes or joins a pool that runs by itself. -/
theorem ne_of_nextAction? (hnext : nextAction? model held p = some a) :
    (∀ batch options, a ≠ .post batch options) ∧ a ≠ .close ∧ a ≠ .join := by
  rcases (nextAction?_spec hnext).1 with hactor | ⟨-, rfl⟩
  · refine ⟨fun _ _ h => ?_, fun h => ?_, fun h => ?_⟩ <;> rw [h] at hactor <;> cases hactor
  · exact ⟨fun _ _ => Action.noConfusion, Action.noConfusion, Action.noConfusion⟩

theorem Ending.step {posted : List Job} (h : Ending size posted p)
    (hnext : nextAction? model held p = some a) (hstep : Step p a p') : Ending size posted p' where
  reachable := h.reachable.step a (step?_of_step hstep)
  phase := by
    cases hstep with
    | close => exact absurd rfl (ne_of_nextAction? hnext).2.1
    | join => exact absurd rfl (ne_of_nextAction? hnext).2.2
    | wakeAll => exact .inr rfl
    | _ => exact h.phase
  posted_eq := by
    cases hstep with
    | post batch options => exact absurd rfl ((ne_of_nextAction? hnext).1 batch options)
    | _ => exact h.posted_eq

theorem Ending.gone {posted : List Job} (h : Ending size posted p)
    (hnext : nextAction? model (fun _ => false) p = none) :
    p.phase = .notified ∧ ∀ w ∈ p.workers, w.isLive = false := by
  have hphase : p.phase = .notified := by
    refine h.phase.resolve_left fun hclosed => ?_
    unfold nextAction? at hnext
    split at hnext <;> cases hnext
  exact ⟨hphase, h.reachable.gone_of_isIdle hphase (isIdle_of_nextAction? hnext)⟩

/-- An open pool that is shut down ends joined, with the jobs that it had. -/
theorem Reachable.shut (h : Reachable size p) (hserving : p.phase = .serving) (model : Model) :
    Reachable size (p.shut model) ∧ (p.shut model).phase = .joined ∧
      (p.shut model).posted = p.posted := by
  have hclose : p.step? .close = some { p with phase := .closed } :=
    step?_of_step (.close hserving)
  have hclosed : Ending size p.posted { p with phase := .closed } :=
    ⟨h.step .close hclose, .inl rfl, rfl⟩
  have hending : Ending size p.posted
      (settle model (fun _ => false) { p with phase := .closed }) :=
    advance_induct (fun _ _ _ hp hnext hstep => hp.step hnext hstep) hclosed _
  obtain ⟨hphase, hgone⟩ := hending.gone (nextAction?_advance (Nat.le_refl _))
  have hjoin := step?_of_step (.join hphase hgone)
  have hshut : p.shut model =
      { settle model (fun _ => false) { p with phase := .closed } with phase := .joined } := by
    simp only [Pool.shut, hclose, Option.getD_some, hjoin]
  rw [hshut]
  exact ⟨hending.reachable.step .join hjoin, rfl, hending.posted_eq⟩

/-- Workers for whom there never was a job all leave. -/
theorem shut_start (model : Model) (n : Nat) :
    ((start n).shut model).size = n ∧ ((start n).shut model).phase = .joined ∧
      ∀ w ∈ ((start n).shut model).workers, w = .exited := by
  have hstart : Reachable n (start n) := .start
  obtain ⟨hreach, hjoined, hposted⟩ := hstart.shut rfl model
  refine ⟨hreach.length_workers, hjoined, fun w hw => ?_⟩
  refine (exited_or_died_of_isLive (hreach.orderly.joined hjoined w hw)).resolve_right ?_
  rintro ⟨job, rfl⟩
  have hjob := hreach.tallied.mem_posted_of_died hw
  rw [hposted] at hjob
  cases hjob

end DecodingDesk.Pool

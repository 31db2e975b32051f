import DecodingDesk.Pool
/-!
# What can happen in a pool

`Pool.step?` as a relation with one constructor for each kind of event.  Every
invariant of the pool goes through these cases and never opens the function.
-/

namespace DecodingDesk.Pool

open Model (Outcome)

variable {p p' : Pool} {a : Action}

/-- One event in a pool. -/
inductive Step (p : Pool) : Action → Pool → Prop where
  | post (batch : Batch) (options : Options) (hphase : p.phase = .serving) :
      Step p (.post batch options) (p.post batch options)
  /-- nobody sleeps, so the notification is lost -/
  | notifyNobody {n : Nat} (howed : p.unnotified = n + 1) (hnone : Worker.asleep ∉ p.workers) :
      Step p (.notify none) { p with unnotified := n }
  | wake {n i : Nat} (howed : p.unnotified = n + 1) (hworker : p.workers[i]? = some .asleep) :
      Step p (.notify (some i))
        { p with unnotified := n, workers := p.workers.set i .woken }
  | take {i : Nat} {w : Worker} {job : Job} {rest : List Job}
      (hworker : p.workers[i]? = some w) (hlooks : w = .ready ∨ w = .woken)
      (hqueue : p.queue = job :: rest) :
      Step p (.look i)
        { p with
          queue := rest
          called := p.called ++ [job]
          workers := p.workers.set i (.running job) }
  | sleep {i : Nat} {w : Worker} (hworker : p.workers[i]? = some w)
      (hlooks : w = .ready ∨ w = .woken) (hqueue : p.queue = []) (hphase : p.phase = .serving) :
      Step p (.look i) { p with workers := p.workers.set i .asleep }
  | leave {i : Nat} {w : Worker} (hworker : p.workers[i]? = some w)
      (hlooks : w = .ready ∨ w = .woken) (hqueue : p.queue = []) (hphase : p.phase ≠ .serving) :
      Step p (.look i) { p with workers := p.workers.set i .exited }
  | answer {i : Nat} {job : Job} {outcome : Outcome} {reply : Reply}
      (hworker : p.workers[i]? = some (.running job))
      (hverdict : job.verdict outcome = some reply) :
      Step p (.finish i outcome)
        { p with
          workers := p.workers.set i .ready
          answers := p.answers ++ [{ job, outcome, reply }] }
  | die {i : Nat} {job : Job} {outcome : Outcome}
      (hworker : p.workers[i]? = some (.running job)) (hverdict : job.verdict outcome = none) :
      Step p (.finish i outcome) { p with workers := p.workers.set i (.died job) }
  | forget (id : Nat) : Step p (.forget id) { p with forgotten := id :: p.forgotten }
  | close (hphase : p.phase = .serving) : Step p .close { p with phase := .closed }
  | wakeAll (hphase : p.phase = .closed) :
      Step p .wakeAll { p with phase := .notified, workers := p.workers.map Worker.wake }
  | join (hphase : p.phase = .notified) (hgone : ∀ w ∈ p.workers, w.isLive = false) :
      Step p .join { p with phase := .joined }

private theorem step_of_notify? {sleeper : Option Nat} (h : p.notify? sleeper = some p') :
    Step p (.notify sleeper) p' := by
  unfold notify? at h
  split at h
  · cases h
  · rename_i n howed
    split at h
    · cases h
    · rename_i hnone
      cases h
      exact .notifyNobody howed (by simpa using hnone)
  · rename_i n i howed
    split at h
    · rename_i hworker
      cases h
      exact .wake howed hworker
    · cases h

private theorem step_of_empty {i : Nat} {w : Worker} (hworker : p.workers[i]? = some w)
    (hlooks : w = .ready ∨ w = .woken) (hqueue : p.queue = []) :
    Step p (.look i)
      { p with
        workers := p.workers.set i (if p.phase = .serving then .asleep else .exited) } := by
  by_cases hphase : p.phase = .serving
  · rw [if_pos hphase]
    exact .sleep hworker hlooks hqueue hphase
  · rw [if_neg hphase]
    exact .leave hworker hlooks hqueue hphase

private theorem step_of_look? {i : Nat} (h : p.look? i = some p') : Step p (.look i) p' := by
  unfold look? at h
  split at h
  · rename_i hworker
    split at h
    · cases h
      exact .take hworker (.inl rfl) ‹_›
    · cases h
      exact step_of_empty hworker (.inl rfl) ‹_›
  · rename_i hworker
    split at h
    · cases h
      exact .take hworker (.inr rfl) ‹_›
    · cases h
      exact step_of_empty hworker (.inr rfl) ‹_›
  · cases h

private theorem step_of_finish? {i : Nat} {outcome : Outcome}
    (h : p.finish? i outcome = some p') : Step p (.finish i outcome) p' := by
  unfold finish? at h
  split at h
  · rename_i job hworker
    split at h
    · rename_i reply hverdict
      cases h
      exact .answer hworker hverdict
    · rename_i hverdict
      cases h
      exact .die hworker hverdict
  · cases h

theorem step_of_step? (h : p.step? a = some p') : Step p a p' := by
  cases a with
  | post batch options =>
    obtain ⟨hphase, rfl⟩ : p.phase = .serving ∧ p.post batch options = p' := by
      simpa [step?] using h
    exact .post batch options hphase
  | notify sleeper => exact step_of_notify? h
  | look i => exact step_of_look? h
  | finish i outcome => exact step_of_finish? h
  | forget id =>
    cases h
    exact .forget id
  | close =>
    obtain ⟨hphase, rfl⟩ : p.phase = .serving ∧ { p with phase := .closed } = p' := by
      simpa [step?] using h
    exact .close hphase
  | wakeAll =>
    obtain ⟨hphase, rfl⟩ : p.phase = .closed ∧
        { p with phase := .notified, workers := p.workers.map Worker.wake } = p' := by
      simpa [step?] using h
    exact .wakeAll hphase
  | join =>
    obtain ⟨⟨hphase, hgone⟩, rfl⟩ : (p.phase = .notified ∧ ∀ w ∈ p.workers, w.isLive = false) ∧
        { p with phase := .joined } = p' := by
      simpa [step?] using h
    exact .join hphase hgone

theorem step?_of_step (h : Step p a p') : p.step? a = some p' := by
  cases h with
  | post batch options hphase => simp [step?, hphase]
  | notifyNobody howed hnone => simp [step?, notify?, howed, hnone]
  | wake howed hworker => simp [step?, notify?, howed, hworker]
  | take hworker hlooks hqueue =>
    rcases hlooks with rfl | rfl <;> simp [step?, look?, hworker, hqueue]
  | sleep hworker hlooks hqueue hphase =>
    rcases hlooks with rfl | rfl <;> simp [step?, look?, hworker, hqueue, hphase]
  | leave hworker hlooks hqueue hphase =>
    rcases hlooks with rfl | rfl <;> simp [step?, look?, hworker, hqueue, hphase]
  | answer hworker hverdict => simp [step?, finish?, hworker, hverdict]
  | die hworker hverdict => simp [step?, finish?, hworker, hverdict]
  | forget id => rfl
  | close hphase => simp [step?, hphase]
  | wakeAll hphase => simp [step?, hphase]
  | join hphase hgone => simpa [step?, hphase] using hgone

/-! ## What steps keep -/

theorem Step.length_workers (h : Step p a p') : p'.workers.length = p.workers.length := by
  cases h <;> simp [Pool.post]

theorem Step.isPrefix_posted (h : Step p a p') : p.posted <+: p'.posted := by
  cases h with
  | post batch options hphase => exact List.prefix_append _ _
  | _ => exact List.prefix_rfl

theorem Step.mem_posted (h : Step p a p') {job : Job} (hj : job ∈ p.posted) :
    job ∈ p'.posted :=
  h.isPrefix_posted.subset hj

theorem Step.phase_serving (h : Step p a p') (hphase : p.phase = .serving) (hclose : a ≠ .close) :
    p'.phase = .serving := by
  cases h with
  | close => exact absurd rfl hclose
  | wakeAll hclosed => rw [hphase] at hclosed; cases hclosed
  | join hnotified _ => rw [hphase] at hnotified; cases hnotified
  | _ => exact hphase

theorem Step.phase_eq (h : Step p a p') (hclose : a ≠ .close) (hwakeAll : a ≠ .wakeAll)
    (hjoin : a ≠ .join) : p'.phase = p.phase := by
  cases h with
  | close => exact absurd rfl hclose
  | wakeAll => exact absurd rfl hwakeAll
  | join => exact absurd rfl hjoin
  | _ => rfl

theorem Reachable.length_workers {size : Nat} (h : Reachable size p) :
    p.workers.length = size := by
  induction h with
  | start => exact List.length_replicate
  | step a _ hstep ih => rw [(step_of_step? hstep).length_workers, ih]

/-! ## Runs -/

/-- The pool after actions in turn, if each of them is possible. -/
def run? (p : Pool) : List Action → Option Pool
  | [] => some p
  | a :: rest => (p.step? a).bind fun p => p.run? rest

theorem Reachable.run {size : Nat} {actions : List Action} (h : Reachable size p)
    (hrun : p.run? actions = some p') : Reachable size p' := by
  induction actions generalizing p with
  | nil =>
    cases hrun
    exact h
  | cons a rest ih =>
    obtain ⟨q, hstep, hrest⟩ := Option.bind_eq_some_iff.mp hrun
    exact ih (h.step a hstep) hrest

end DecodingDesk.Pool

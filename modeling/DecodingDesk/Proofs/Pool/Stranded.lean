import DecodingDesk.Model.Scripted
import DecodingDesk.Proofs.Pool.Closing
import DecodingDesk.Proofs.Pool.Delay
import DecodingDesk.Proofs.Pool.Wakeup
import Mathlib.Logic.Relation
/-!
# Jobs that nobody is left for

A lethal panic costs a worker, and nobody replaces it.  As long as one worker is left, a
pool in which nobody can act any more has settled all of its jobs.  When all workers have
died, the jobs in the queue stay where they are, and their callers wait until the pool is
gone.
-/

namespace DecodingDesk.Pool

open Model (Script)

variable {size : Nat} {p p' : Pool} {a : Action} {job : Job}

/-- Nobody can act: no worker can do anything, and no post has still to notify one. -/
def IsIdle (p : Pool) : Prop :=
  ∀ a p', a.actor?.isSome → p.step? a ≠ some p'

/-- The pools that can come about from one. -/
def Later : Pool → Pool → Prop :=
  Relation.ReflTransGen fun p p' => ∃ a, p.step? a = some p'

theorem Reachable.later (h : Reachable size p) (hlater : Later p p') : Reachable size p' := by
  induction hlater with
  | refl => exact h
  | tail _ hstep ih =>
    obtain ⟨a, hstep⟩ := hstep
    exact ih.step a hstep

/-! ## When nobody can act -/

theorem IsIdle.unnotified_eq_zero (h : p.IsIdle) : p.unnotified = 0 := by
  cases howed : p.unnotified with
  | zero => rfl
  | succ n =>
    by_cases hasleep : .asleep ∈ p.workers
    · obtain ⟨i, hi⟩ := List.mem_iff_getElem?.mp hasleep
      exact absurd (step?_of_step (.wake howed hi)) (h _ _ rfl)
    · exact absurd (step?_of_step (.notifyNobody howed hasleep)) (h _ _ rfl)

/-- A worker that could still look at the queue or come back from a call is not idle. -/
theorem IsIdle.asleep_or_gone (h : p.IsIdle) {w : Worker} (hw : w ∈ p.workers) :
    w = .asleep ∨ w.isLive = false := by
  obtain ⟨i, hi⟩ := List.mem_iff_getElem?.mp hw
  have hlook : ¬ (w = .ready ∨ w = .woken) := by
    intro hlooks
    cases hqueue : p.queue with
    | cons job rest => exact h _ _ rfl (step?_of_step (.take hi hlooks hqueue))
    | nil =>
      by_cases hphase : p.phase = .serving
      · exact h _ _ rfl (step?_of_step (.sleep hi hlooks hqueue hphase))
      · exact h _ _ rfl (step?_of_step (.leave hi hlooks hqueue hphase))
  cases w with
  | ready => exact absurd (.inl rfl) hlook
  | woken => exact absurd (.inr rfl) hlook
  | running job =>
    have hverdict : job.verdict (.panicked .lethal) = none := verdict_eq_none_iff.mpr rfl
    exact absurd (step?_of_step (.die hi hverdict)) (h _ _ rfl)
  | asleep => exact .inl rfl
  | died job | exited => exact .inr rfl

theorem isIdle_iff : p.IsIdle ↔
    p.unnotified = 0 ∧ ∀ w ∈ p.workers, w = .asleep ∨ w.isLive = false := by
  refine ⟨fun h => ⟨h.unnotified_eq_zero, fun _ => h.asleep_or_gone⟩, ?_⟩
  rintro ⟨howed, hworkers⟩ a p' hactor hstep
  rw [(step_of_step? hstep).actor?_eq_none howed hworkers] at hactor
  cases hactor

/-- A job that waits in the queue of an open pool in which nobody can act has no worker. -/
theorem Reachable.died_of_queue (h : Reachable size p) (hopen : p.phase = .serving)
    (hidle : p.IsIdle) (hqueue : job ∈ p.queue) {w : Worker} (hw : w ∈ p.workers) :
    ∃ other, w = .died other := by
  obtain ⟨howed, hworkers⟩ := isIdle_iff.mp hidle
  have hnowoken : p.workers.count .woken = 0 := by
    rw [List.count_eq_zero]
    intro hwoken
    rcases hworkers _ hwoken with h | h <;> cases h
  rcases hworkers w hw with rfl | hgone
  -- somebody who sleeps while a job waits has a notification coming
  · have hle := h.attended.queue_le hw
    have hpos := List.length_pos_of_mem hqueue
    omega
  · refine (exited_or_died_of_isLive hgone).resolve_left ?_
    rintro rfl
    exact absurd hopen (h.orderly.exited hw).1

/-! ## A pool in which everybody has died -/

/-- A job in the queue of a pool whose workers have all died. -/
structure Stranded (p : Pool) (job : Job) : Prop where
  queued : job ∈ p.queue
  died : ∀ w ∈ p.workers, ∃ other, w = .died other

theorem Stranded.step (h : p.Stranded job) (hstep : Step p a p') : p'.Stranded job := by
  have hnobody : ∀ {i : Nat} {w : Worker}, p.workers[i]? = some w → ∃ other, w = .died other :=
    fun hworker => h.died _ (List.mem_of_getElem? hworker)
  cases hstep with
  | post batch options _ => exact ⟨List.mem_append_left _ h.queued, h.died⟩
  | wake _ hworker | answer hworker | die hworker =>
    obtain ⟨other, hother⟩ := hnobody hworker
    cases hother
  | take hworker hlooks | sleep hworker hlooks | leave hworker hlooks =>
    obtain ⟨other, hother⟩ := hnobody hworker
    subst hother
    rcases hlooks with hlooks | hlooks <;> cases hlooks
  | wakeAll _ =>
    refine ⟨h.queued, fun w hw => ?_⟩
    obtain ⟨v, hv, rfl⟩ := List.mem_map.mp hw
    obtain ⟨other, rfl⟩ := h.died v hv
    exact ⟨other, rfl⟩
  | notifyNobody | forget | close | join => exact ⟨h.queued, h.died⟩

theorem Stranded.later (h : p.Stranded job) (hlater : Later p p') : p'.Stranded job := by
  induction hlater with
  | refl => exact h
  | tail _ hstep ih =>
    obtain ⟨a, hstep⟩ := hstep
    exact ih.step (step_of_step? hstep)

theorem Stranded.future?_eq_none (h : p.Stranded job) (htally : p.Tallied)
    (hphase : p.phase ≠ .joined) : p.future? job.id = none := by
  have hposted : job ∈ p.posted := by
    rw [htally.posted_eq]
    exact List.mem_append_right _ h.queued
  have hplaces := htally.count_places job
  have hqueued := List.count_pos_iff.mpr h.queued
  rw [if_pos hposted] at hplaces
  have hanswered : job ∉ p.answered := by
    rw [← List.count_eq_zero]
    omega
  have hdied : .died job ∉ p.workers := by
    rw [← List.count_eq_zero]
    omega
  have hlost : p.isLost job.id = false := by
    rw [← Bool.not_eq_true, htally.isLost_iff hposted]
    exact hdied
  unfold future?
  rw [htally.find?_eq_none hposted hanswered, hlost]
  simp [hphase]

/-- When nobody in an open pool can act any more, a caller is still waiting exactly if his job
is in the queue and all workers have died, and he then waits until the pool is gone. -/
theorem Reachable.future?_eq_none_iff (h : Reachable size p) (hopen : p.phase = .serving)
    (hidle : p.IsIdle) (hj : job ∈ p.posted) :
    (p.future? job.id = none ↔ job ∈ p.queue ∧ ∀ w ∈ p.workers, ∃ other, w = .died other) ∧
      (p.future? job.id = none →
        ∀ p', Later p p' → p'.phase ≠ .joined → p'.future? job.id = none) := by
  have hstranded : p.future? job.id = none → p.Stranded job := by
    intro hnone
    rcases h.tallied.mem_of_future?_eq_none hj hnone with hqueue | hrunning
    · exact ⟨hqueue, fun _ hw => h.died_of_queue hopen hidle hqueue hw⟩
    · rcases hidle.asleep_or_gone hrunning with hw | hw <;> cases hw
  refine ⟨⟨fun hnone => ?_, fun ⟨hqueue, hdied⟩ => ?_⟩, fun hnone p' hlater hphase => ?_⟩
  · exact ⟨(hstranded hnone).queued, (hstranded hnone).died⟩
  · exact Stranded.future?_eq_none ⟨hqueue, hdied⟩ h.tallied (by simp [hopen])
  · exact ((hstranded hnone).later hlater).future?_eq_none (h.later hlater).tallied hphase

/-- A model of which one token makes a lethal panic. -/
def bombScript : Script where
  rules := [("bomb", .panic .lethal)]

/-- The only worker dies of the first job, and the second is posted after that. -/
def strandedRun : List Action :=
  [.post [["bomb"]] default, .notify none, .look 0,
    .finish 0 (bombScript.model [["bomb"]] default), .post [["a"]] default, .notify none]

theorem exists_strandedRun : ∃ p, (Pool.start 1).run? strandedRun = some p ∧ Reachable 1 p ∧
    p.phase = .serving ∧ p.IsIdle ∧ ⟨1, [["a"]], default⟩ ∈ p.posted ∧
    ⟨1, [["a"]], default⟩ ∈ p.queue ∧ ∀ w ∈ p.workers, ∃ other, w = .died other := by
  obtain ⟨p, hrun⟩ : ∃ p, (Pool.start 1).run? strandedRun = some p := ⟨_, rfl⟩
  refine ⟨p, hrun, Reachable.start.run hrun, ?_⟩
  cases hrun
  have hdied : ∀ w ∈ [Worker.died ⟨0, [["bomb"]], default⟩], ∃ other, w = .died other := by
    intro w hw
    exact ⟨_, List.mem_singleton.mp hw⟩
  refine ⟨rfl, isIdle_iff.mpr ⟨rfl, fun w hw => ?_⟩, List.mem_cons_of_mem _ List.mem_cons_self,
    List.mem_cons_self, hdied⟩
  obtain ⟨other, rfl⟩ := hdied w hw
  exact .inr rfl

theorem future?_eq_none_strandedRun : ∃ p, (Pool.start 1).run? strandedRun = some p ∧
    Reachable 1 p ∧ p.phase = .serving ∧ p.IsIdle ∧ ⟨1, [["a"]], default⟩ ∈ p.posted ∧
    ∀ p', Later p p' → p'.phase ≠ .joined → p'.future? 1 = none := by
  obtain ⟨p, hrun, hreach, hopen, hidle, hposted, hqueue, hdied⟩ := exists_strandedRun
  obtain ⟨hiff, hstays⟩ := hreach.future?_eq_none_iff hopen hidle hposted
  exact ⟨p, hrun, hreach, hopen, hidle, hposted, hstays (hiff.mpr ⟨hqueue, hdied⟩)⟩

/-- So not every caller gets something from an open pool. -/
theorem not_settled_of_isIdle : ¬ ∀ (size : Nat) (p : Pool), 0 < size → Reachable size p →
    p.phase = .serving → p.IsIdle → ∀ job ∈ p.posted, p.future? job.id ≠ none := by
  intro hall
  obtain ⟨p, hrun, hreach, hopen, hidle, hposted, hqueue, hdied⟩ := exists_strandedRun
  have hstranded : p.Stranded ⟨1, [["a"]], default⟩ := ⟨hqueue, hdied⟩
  exact hall 1 p Nat.one_pos hreach hopen hidle _ hposted
    (hstranded.future?_eq_none hreach.tallied (by simp [hopen]))

end DecodingDesk.Pool

import DecodingDesk.Pool.Schedule
import DecodingDesk.Proofs.Pool.Stranded
/-!
# The work that is left in a pool

Whatever the workers do, and whatever the posts do to notify them, makes the work that is
left less.  The next action of a pool that runs by itself is one that is possible and that its
model allows; and when there is none, nobody can act.
-/

namespace DecodingDesk.Pool

variable {size : Nat} {p p' : Pool} {a : Action} {model : Model} {held : Job → Bool}

/-! ## What steps do to it -/

/-- The work of the workers. -/
def workersWork (ws : List Worker) : Nat :=
  ws.foldr (fun w n => w.work + n) 0

theorem workersWork_set {ws : List Worker} {i : Nat} {w : Worker} (h : ws[i]? = some w)
    (v : Worker) : workersWork (ws.set i v) + w.work = workersWork ws + v.work :=
  foldr_set_add h v Worker.work

theorem workersWork_wake_le (ws : List Worker) :
    workersWork (ws.map Worker.wake) ≤ workersWork ws + ws.length := by
  have hwake : ∀ w : Worker, w.wake.work ≤ w.work + 1 := by
    intro w
    cases w <;> simp [Worker.wake, Worker.work]
  induction ws with
  | nil => exact Nat.le_refl _
  | cons w ws ih =>
    have := hwake w
    simp only [workersWork, List.map_cons, List.foldr_cons, List.length_cons] at ih ⊢
    omega

theorem work_eq (p : Pool) : p.work = 2 * p.queue.length + 2 * p.unnotified +
    workersWork p.workers + if p.phase = .closed then p.workers.length + 1 else 0 :=
  rfl

theorem work_post (p : Pool) (batch : Batch) (options : Options) :
    (p.post batch options).work = p.work + 4 := by
  simp only [work_eq, post, List.length_append, List.length_singleton]
  omega

theorem work_close (hphase : p.phase = .serving) :
    ({ p with phase := .closed } : Pool).work = p.work + p.workers.length + 1 := by
  simp [work_eq, hphase]
  omega

theorem work_wakeAll (hphase : p.phase = .closed) :
    ({ p with phase := .notified, workers := p.workers.map Worker.wake } : Pool).work < p.work := by
  have hwoken := workersWork_wake_le p.workers
  simp only [work_eq, hphase, reduceCtorEq, if_true, if_false]
  omega

/-- A worker is replaced, and the work of the queue and the posts changes too. -/
private theorem work_lt_of_set {i : Nat} {w v : Worker} (hworker : p.workers[i]? = some w)
    (hworkers : p'.workers = p.workers.set i v) (hphase : p'.phase = p.phase)
    (hless : 2 * p'.queue.length + 2 * p'.unnotified + v.work <
      2 * p.queue.length + 2 * p.unnotified + w.work) : p'.work < p.work := by
  have hset := workersWork_set hworker v
  rw [work_eq, work_eq, hworkers, hphase, List.length_set]
  omega

/-- Whatever a worker or a post that notifies one does is work done. -/
theorem Step.work_lt (hstep : Step p a p') (hactor : a.actor?.isSome) : p'.work < p.work := by
  cases hstep with
  | notifyNobody howed hnone =>
    simp only [work_eq, howed]
    omega
  | wake howed hworker =>
    refine work_lt_of_set hworker rfl rfl ?_
    simp only [howed, Worker.work]
    omega
  | take hworker hlooks hqueue =>
    refine work_lt_of_set hworker rfl rfl ?_
    rcases hlooks with rfl | rfl <;> simp only [hqueue, List.length_cons, Worker.work] <;> omega
  | sleep hworker hlooks | leave hworker hlooks =>
    refine work_lt_of_set hworker rfl rfl ?_
    rcases hlooks with rfl | rfl <;> simp only [Worker.work] <;> omega
  | answer hworker | die hworker =>
    refine work_lt_of_set hworker rfl rfl ?_
    simp only [Worker.work]
    omega
  | post | forget | close | wakeAll | join => cases hactor

/-! ## What happens next -/

/-- What a worker does by itself, it looks or comes back from its call, is possible. -/
theorem step_of_workerAction? {i : Nat} {w : Worker} (hworker : p.workers[i]? = some w)
    (h : workerAction? model held i w = some a) :
    a.actor?.isSome ∧ p.Follows model a ∧ ∃ p', Step p a p' := by
  have hlook : w = .ready ∨ w = .woken → ∃ p', Step p (.look i) p' := by
    intro hlooks
    cases hqueue : p.queue with
    | cons job rest => exact ⟨_, .take hworker hlooks hqueue⟩
    | nil =>
      by_cases hphase : p.phase = .serving
      · exact ⟨_, .sleep hworker hlooks hqueue hphase⟩
      · exact ⟨_, .leave hworker hlooks hqueue hphase⟩
  cases w with
  | ready =>
    cases h
    exact ⟨rfl, trivial, hlook (.inl rfl)⟩
  | woken =>
    cases h
    exact ⟨rfl, trivial, hlook (.inr rfl)⟩
  | running job =>
    simp only [workerAction?] at h
    split at h
    · cases h
    · cases h
      refine ⟨rfl, ?_, ?_⟩
      · intro other hother
        rw [hworker] at hother
        cases hother
        rfl
      · cases hverdict : job.verdict (model job.batch job.options) with
        | none => exact ⟨_, .die hworker hverdict⟩
        | some reply => exact ⟨_, .answer hworker hverdict⟩
  | asleep | died | exited => cases h

/-- A post that owes a notification can give it. -/
theorem exists_step_notify (howed : 0 < p.unnotified) :
    ∃ p', Step p (.notify (p.workers.idxOf? .asleep)) p' := by
  obtain ⟨n, hn⟩ : ∃ n, p.unnotified = n + 1 := ⟨p.unnotified - 1, by omega⟩
  cases hsleeper : p.workers.idxOf? .asleep with
  | none => exact ⟨_, .notifyNobody hn (List.idxOf?_eq_none_iff.mp hsleeper)⟩
  | some i =>
    obtain ⟨hi, hasleep, -⟩ := List.idxOf?_eq_some_iff.mp hsleeper
    exact ⟨_, .wake hn (by rw [List.getElem?_eq_getElem hi, hasleep])⟩

/-- What is next is possible, and the model allows it.  A worker or a post does it, or it wakes
the sleepers of a pool that was closed. -/
theorem nextAction?_spec (h : nextAction? model held p = some a) :
    (a.actor?.isSome ∨ p.phase = .closed ∧ a = .wakeAll) ∧ p.Follows model a ∧
      ∃ p', Step p a p' := by
  unfold nextAction? at h
  split at h
  · rename_i howed
    cases h
    exact ⟨.inl rfl, trivial, exists_step_notify howed⟩
  · split at h
    · rename_i hphase
      cases h
      exact ⟨.inr ⟨hphase, rfl⟩, trivial, _, .wakeAll hphase⟩
    · obtain ⟨⟨w, i⟩, hmem, hw⟩ := List.exists_of_findSome?_eq_some h
      obtain ⟨hactor, hfollows, hstep⟩ :=
        step_of_workerAction? (List.mem_zipIdx_iff_getElem?.mp hmem) hw
      exact ⟨.inl hactor, hfollows, hstep⟩

/-- What is next is something that the model allows. -/
theorem follows_of_nextAction? (h : nextAction? model held p = some a) : p.Follows model a :=
  (nextAction?_spec h).2.1

/-- In a pool that is not about to wake its sleepers, what is next is something that a worker or
a post can do. -/
theorem step_of_nextAction? (hphase : p.phase ≠ .closed)
    (h : nextAction? model held p = some a) : a.actor?.isSome ∧ ∃ p', Step p a p' := by
  obtain ⟨hactor, -, hstep⟩ := nextAction?_spec h
  exact ⟨hactor.resolve_right fun hclosed => hphase hclosed.1, hstep⟩

/-- When nothing is next and no call is held up, nobody can act. -/
theorem isIdle_of_nextAction? (h : nextAction? model (fun _ => false) p = none) : p.IsIdle := by
  unfold nextAction? at h
  split at h
  · cases h
  · rename_i howed
    split at h
    · cases h
    · refine isIdle_iff.mpr ⟨by omega, fun w hw => ?_⟩
      obtain ⟨i, hi⟩ := List.mem_iff_getElem?.mp hw
      have hnone := List.findSome?_eq_none_iff.mp h (w, i) (List.mem_zipIdx_iff_getElem?.mpr hi)
      cases w with
      | ready | woken | running => cases hnone
      | asleep => exact .inl rfl
      | died | exited => exact .inr rfl

/-- As long as somebody can act, there is something that the model allows. -/
theorem exists_step_of_not_isIdle (hphase : p.phase ≠ .closed) (h : ¬p.IsIdle) (model : Model) :
    ∃ a p', a.actor?.isSome ∧ p.Follows model a ∧ Step p a p' := by
  cases hnext : nextAction? model (fun _ => false) p with
  | none => exact absurd (isIdle_of_nextAction? hnext) h
  | some a =>
    obtain ⟨hactor, p', hstep⟩ := step_of_nextAction? hphase hnext
    exact ⟨a, p', hactor, follows_of_nextAction? hnext, hstep⟩

/-- When nobody can act, every job of an open pool around a model that kills no worker is
settled. -/
theorem Reachable.settled_of_isIdle (h : Reachable size p) (hobeys : Obeys model p)
    (hphase : p.phase = .serving) (hsize : 0 < size)
    (hmodel : ∀ b o, model b o ≠ .panicked .lethal) (hidle : p.IsIdle) {job : Job}
    (hj : job ∈ p.posted) : ∃ reply, p.future? job.id = some reply := by
  cases hfuture : p.future? job.id with
  | some reply => exact ⟨reply, rfl⟩
  | none =>
    obtain ⟨actor, hhelps⟩ := exists_helps h hobeys hphase hsize hmodel hj hfuture
    obtain ⟨a, p', hactor, -, hstep⟩ : ∃ a p', a.actor? = some actor ∧ p.Follows model a ∧
        Step p a p' := hhelps.exists_step h.attended
    exact absurd (step?_of_step hstep) (hidle a p' (by rw [hactor]; rfl))

/-- When nobody can act in a pool whose sleepers have been woken, everybody is gone. -/
theorem Reachable.gone_of_isIdle (h : Reachable size p) (hphase : p.phase = .notified)
    (hidle : p.IsIdle) : ∀ w ∈ p.workers, w.isLive = false := by
  intro w hw
  rcases hidle.asleep_or_gone hw with rfl | hgone
  · rcases h.attended.phase hw with hopen | hclosed
    · rw [hphase] at hopen
      cases hopen
    · rw [hphase] at hclosed
      cases hclosed
  · exact hgone

end DecodingDesk.Pool

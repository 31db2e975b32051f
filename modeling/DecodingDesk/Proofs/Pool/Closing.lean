import DecodingDesk.Proofs.Pool.Answers
/-!
# The end of a pool

Workers leave only a closed pool whose queue is empty, and since nothing is posted
after closing the queue stays empty.  So a pool whose workers are gone has run every
job, unless all of its workers died.
-/

namespace DecodingDesk.Pool

variable {size : Nat} {p p' : Pool} {a : Action}

/-- Workers are gone only when it is time. -/
structure Orderly (p : Pool) : Prop where
  exited : .exited ∈ p.workers → p.phase ≠ .serving ∧ p.queue = []
  joined : p.phase = .joined → ∀ w ∈ p.workers, w.isLive = false

theorem orderly_start (size : Nat) : (Pool.start size).Orderly where
  exited h := by simp [Pool.start] at h
  joined h := by cases h

theorem Orderly.not_joined (h : p.Orderly) {i : Nat} {w : Worker} (hworker : p.workers[i]? = some w)
    (hlive : w.isLive = true) : p.phase ≠ .joined := by
  intro hphase
  have hdead := h.joined hphase w (List.mem_of_getElem? hworker)
  rw [hlive] at hdead
  cases hdead

/-- A worker that is replaced by one that has not left keeps the pool in order. -/
private theorem orderly_of_set (h : p.Orderly) {i : Nat} {w v : Worker}
    (hworker : p.workers[i]? = some w) (hlive : w.isLive = true) (hv : v ≠ .exited)
    (hphase : p'.phase = p.phase) (hworkers : p'.workers = p.workers.set i v)
    (hqueue : p.queue = [] → p'.queue = []) : p'.Orderly where
  exited hmem := by
    rw [hworkers] at hmem
    rcases List.mem_or_eq_of_mem_set hmem with hmem | heq
    · rw [hphase]
      exact ⟨(h.exited hmem).1, hqueue (h.exited hmem).2⟩
    · exact absurd heq.symm hv
  joined hjoined := by
    rw [hphase] at hjoined
    exact absurd hjoined (h.not_joined hworker hlive)

theorem Orderly.step (h : p.Orderly) (hstep : Step p a p') : p'.Orderly := by
  cases hstep with
  | post batch options hphase =>
    refine ⟨fun hmem => absurd hphase (h.exited hmem).1, ?_⟩
    intro hjoined
    have hserving : p.phase = .joined := hjoined
    rw [hphase] at hserving
    cases hserving
  | notifyNobody howed hnone => exact ⟨h.exited, h.joined⟩
  | wake howed hworker => exact orderly_of_set h hworker rfl (by simp) rfl rfl id
  | take hworker hlooks hqueue =>
    refine orderly_of_set h hworker (by rcases hlooks with rfl | rfl <;> rfl) (by simp) rfl rfl ?_
    intro hnil
    rw [hqueue] at hnil
    cases hnil
  | sleep hworker hlooks hqueue hphase =>
    exact orderly_of_set h hworker (by rcases hlooks with rfl | rfl <;> rfl) (by simp) rfl rfl id
  | leave hworker hlooks hqueue hphase =>
    refine ⟨fun _ => ⟨hphase, hqueue⟩, fun hjoined => ?_⟩
    exact absurd hjoined (h.not_joined hworker (by rcases hlooks with rfl | rfl <;> rfl))
  | answer hworker hverdict => exact orderly_of_set h hworker rfl (by simp) rfl rfl id
  | die hworker hverdict => exact orderly_of_set h hworker rfl (by simp) rfl rfl id
  | forget id => exact ⟨h.exited, h.joined⟩
  | close hphase =>
    exact ⟨fun hmem => absurd hphase (h.exited hmem).1, fun hjoined => by cases hjoined⟩
  | wakeAll hphase =>
    refine ⟨fun hmem => ⟨by simp, ?_⟩, fun hjoined => by cases hjoined⟩
    obtain ⟨w, hw, hwake⟩ := List.mem_map.mp hmem
    cases w <;> cases hwake
    exact (h.exited hw).2
  | join hphase hgone => exact ⟨fun hmem => ⟨by simp, (h.exited hmem).2⟩, fun _ => hgone⟩

theorem Reachable.orderly (h : Reachable size p) : p.Orderly := by
  induction h with
  | start => exact orderly_start size
  | step a _ hstep ih => exact ih.step (step_of_step? hstep)

/-! ## A pool without workers -/

/-- The jobs that wait for a worker.  A pool that is joined is gone, and with it what its
workers left in the queue. -/
def waiting (p : Pool) : List Job :=
  if p.phase = .joined then [] else p.queue

theorem exited_or_died_of_isLive {w : Worker} (h : w.isLive = false) :
    w = .exited ∨ ∃ job, w = .died job := by
  cases w with
  | exited => exact .inl rfl
  | died job => exact .inr ⟨job, rfl⟩
  | ready | asleep | woken | running => cases h

/-- Only a pool whose workers have all died leaves jobs in the queue. -/
theorem Orderly.queue_eq_nil_or_died (h : p.Orderly) (hjoined : p.phase = .joined) :
    p.queue = [] ∨ ∀ w ∈ p.workers, ∃ job, w = .died job := by
  by_cases hexited : .exited ∈ p.workers
  · exact .inl (h.exited hexited).2
  · right
    intro w hw
    refine (exited_or_died_of_isLive (h.joined hjoined w hw)).resolve_left ?_
    rintro rfl
    exact hexited hw

/-- When the workers are gone, every caller gets something. -/
theorem Orderly.future?_ne_none (h : p.Orderly) (htally : p.Tallied)
    (hjoined : p.phase = .joined) {job : Job} (hj : job ∈ p.posted) :
    p.future? job.id ≠ none := by
  intro hnone
  rcases htally.mem_of_future?_eq_none hj hnone with hqueue | hrunning
  · have hleft : p.queue.any (fun other => other.id = job.id) = true :=
      List.any_eq_true.mpr ⟨job, hqueue, by simp⟩
    unfold future? at hnone
    split at hnone
    · cases hnone
    · simp [hjoined, hleft] at hnone
  · cases h.joined hjoined _ hrunning

/-- If no worker has died, every job has been run and answered. -/
theorem Reachable.called_eq_posted (h : Reachable size p) (hsize : 0 < size)
    (hjoined : p.phase = .joined) (halive : ∀ job, .died job ∉ p.workers) :
    p.called = p.posted ∧ ∀ job ∈ p.posted, job ∈ p.answered := by
  have htally := h.tallied
  have horderly := h.orderly
  have hqueue : p.queue = [] := by
    refine (horderly.queue_eq_nil_or_died hjoined).resolve_right fun hall => ?_
    rw [← h.length_workers] at hsize
    obtain ⟨job, hjob⟩ := hall _ (List.getElem_mem hsize)
    exact halive job (hjob ▸ List.getElem_mem hsize)
  refine ⟨by rw [htally.posted_eq, hqueue, List.append_nil], ?_⟩
  intro job hj
  have hplaces := htally.count_places job
  have hrunning : p.workers.count (.running job) = 0 := by
    rw [List.count_eq_zero]
    intro hw
    cases horderly.joined hjoined _ hw
  rw [if_pos hj, hqueue, hrunning, List.count_eq_zero_of_not_mem (halive job),
    List.count_nil] at hplaces
  apply List.count_pos_iff.mp
  omega

/-- What holds of a pool whose workers are gone: no job waits or is being run, and every caller
has got something.  Only if all workers have died were jobs left to them; if none has, every
job was run and answered. -/
structure Rested (p : Pool) : Prop where
  workers : ∀ w ∈ p.workers, w = .exited ∨ ∃ job, w = .died job
  waiting : p.waiting = []
  queue : p.queue = [] ∨ ∀ w ∈ p.workers, ∃ job, w = .died job
  settled : ∀ job ∈ p.posted, p.future? job.id ≠ none
  allRun : (∀ job, .died job ∉ p.workers) →
    p.called = p.posted ∧ ∀ job ∈ p.posted, job ∈ p.answered

theorem Reachable.rested (h : Reachable size p) (hsize : 0 < size) (hjoined : p.phase = .joined) :
    p.Rested where
  workers w hw := exited_or_died_of_isLive (h.orderly.joined hjoined w hw)
  waiting := if_pos hjoined
  queue := h.orderly.queue_eq_nil_or_died hjoined
  settled _ hj := h.orderly.future?_ne_none h.tallied hjoined hj
  allRun := h.called_eq_posted hsize hjoined

/-! ## Answers are final -/

/-- Nothing happens any more in a pool without workers, except that callers give up. -/
structure Settled (p p' : Pool) : Prop where
  phase : p'.phase = p.phase
  posted : p'.posted = p.posted
  queue : p'.queue = p.queue
  called : p'.called = p.called
  workers : p'.workers = p.workers
  answers : p'.answers = p.answers

theorem Settled.refl (p : Pool) : Settled p p :=
  ⟨rfl, rfl, rfl, rfl, rfl, rfl⟩

theorem Settled.trans {p q r : Pool} (h : Settled p q) (h' : Settled q r) : Settled p r where
  phase := h'.phase.trans h.phase
  posted := h'.posted.trans h.posted
  queue := h'.queue.trans h.queue
  called := h'.called.trans h.called
  workers := h'.workers.trans h.workers
  answers := h'.answers.trans h.answers

theorem Settled.future?_eq (h : Settled p p') (id : Nat) : p'.future? id = p.future? id := by
  unfold future? isLost
  rw [h.answers, h.workers, h.queue, h.phase]

theorem Orderly.settled (h : p.Orderly) (hjoined : p.phase = .joined) (hstep : Step p a p') :
    Settled p p' := by
  cases hstep with
  | notifyNobody | forget => exact ⟨rfl, rfl, rfl, rfl, rfl, rfl⟩
  | wake _ hworker => exact absurd hjoined (h.not_joined hworker rfl)
  | take hworker hlooks | sleep hworker hlooks | leave hworker hlooks =>
    exact absurd hjoined (h.not_joined hworker (by rcases hlooks with rfl | rfl <;> rfl))
  | answer hworker | die hworker => exact absurd hjoined (h.not_joined hworker rfl)
  | post _ _ hphase | close hphase | wakeAll hphase | join hphase _ =>
    rw [hjoined] at hphase
    cases hphase

theorem Step.mem_answers (hstep : Step p a p') {x : Answer} (hx : x ∈ p.answers) :
    x ∈ p'.answers := by
  cases hstep with
  | answer => exact List.mem_append_left _ hx
  | _ => exact hx

theorem Step.mem_died (hstep : Step p a p') {job : Job} (hw : .died job ∈ p.workers) :
    .died job ∈ p'.workers := by
  have hset : ∀ {i : Nat} {w : Worker} (v : Worker), p.workers[i]? = some w →
      w ≠ .died job → .died job ∈ p.workers.set i v := by
    intro i w v hi hne
    obtain ⟨k, hk⟩ := List.mem_iff_getElem?.mp hw
    apply List.mem_iff_getElem?.mpr ⟨k, ?_⟩
    rw [List.getElem?_set_ne, hk]
    rintro rfl
    rw [hi] at hk
    exact hne (Option.some.inj hk)
  cases hstep with
  | wake _ hworker => exact hset _ hworker (by simp)
  | take hworker hlooks | sleep hworker hlooks | leave hworker hlooks =>
    exact hset _ hworker (by rcases hlooks with rfl | rfl <;> simp)
  | answer hworker | die hworker => exact hset _ hworker (by simp)
  | wakeAll => exact List.mem_map.mpr ⟨_, hw, rfl⟩
  | post | notifyNobody | forget | close | join => exact hw

theorem Replied.step {job : Job} {reply : Reply} (h : p.Replied job reply) (hstep : Step p a p') :
    p'.Replied job reply := by
  cases h with
  | answered hx => exact .answered (hstep.mem_answers hx)
  | dropped hdied => exact .dropped (hstep.mem_died hdied)

/-- What a job's caller gets does not change once it is settled. -/
theorem Step.future?_eq_some (hstep : Step p a p') (h : p.Tallied) (horderly : p.Orderly)
    {id : Nat} {reply : Reply} (hreply : p.future? id = some reply) :
    p'.future? id = some reply := by
  by_cases hjoined : p.phase = .joined
  · rw [(horderly.settled hjoined hstep).future?_eq, hreply]
  unfold future? at hreply
  split at hreply
  · rename_i x hfind
    have hx := hstep.mem_answers (List.mem_of_find?_eq_some hfind)
    have hid : x.job.id = id := by simpa using List.find?_some hfind
    rw [← hid, (h.step hstep).future?_of_answer hx, hreply]
  · simp only [hjoined, decide_false, Bool.false_and, Bool.or_false] at hreply
    split at hreply
    · rename_i hlost
      obtain ⟨w, hw, hdied⟩ := List.any_eq_true.mp hlost
      cases w <;> simp at hdied
      rw [← hdied, (h.step hstep).future?_of_died (hstep.mem_died hw), hreply]
    · cases hreply

end DecodingDesk.Pool

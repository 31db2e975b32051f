import DecodingDesk.Proofs.Entries
import DecodingDesk.Proofs.Pool.Step
import Mathlib.Data.List.Nodup
/-!
# Where every job is

Jobs are numbered in the order in which they are posted, workers take them in that
order, and a job that was taken is being run, has been answered, or died with its
worker.  Counting the three kinds of place against the jobs taken gives that no job
is ever lost from sight and none is in two places.
-/

namespace DecodingDesk.Pool

open Model (Outcome)

variable {size : Nat} {p p' : Pool} {a : Action}

namespace Worker

def isDead : Worker → Bool
  | died _ => true
  | _ => false

def lost? : Worker → Option Job
  | died job => some job
  | _ => none

end Worker

def answered (p : Pool) : List Job :=
  p.answers.map Answer.job

def lost (p : Pool) : List Job :=
  p.workers.filterMap Worker.lost?

def deaths (p : Pool) : Nat :=
  p.workers.countP Worker.isDead

/-- What reaches the caller of a job.  Nothing does once the caller has given up. -/
def delivered? (p : Pool) (id : Nat) : Option Reply :=
  if id ∈ p.forgotten then none else p.future? id

/-! ## Counting -/

theorem count_map_wake {ws : List Worker} {x : Worker} (hasleep : x ≠ .asleep)
    (hwoken : x ≠ .woken) : (ws.map Worker.wake).count x = ws.count x := by
  induction ws with
  | nil => rfl
  | cons w ws ih =>
    have hhead : w.wake = x ↔ w = x := by
      cases w <;> simp [Worker.wake, hasleep.symm, hwoken.symm]
    simp only [List.map_cons, List.count_cons, ih, beq_iff_eq, hhead]

/-! ## The tally -/

/-- How the lists of a pool fit together. -/
structure Tallied (p : Pool) : Prop where
  ids : p.posted.map Job.id = List.range p.posted.length
  posted_eq : p.posted = p.called ++ p.queue
  called_count : ∀ job, p.called.count job =
    p.workers.count (.running job) + p.answered.count job + p.workers.count (.died job)
  verdict : ∀ a ∈ p.answers, a.job.verdict a.outcome = some a.reply

theorem tallied_start (size : Nat) : (Pool.start size).Tallied where
  ids := rfl
  posted_eq := rfl
  called_count job := by simp [Pool.start, answered, List.count_replicate]
  verdict a ha := by simp [Pool.start] at ha

/-- A step that moves no job keeps the tally. -/
private theorem tallied_of_workers (h : p.Tallied) (hposted : p'.posted = p.posted)
    (hqueue : p'.queue = p.queue) (hcalled : p'.called = p.called)
    (hanswers : p'.answers = p.answers)
    (hcount : ∀ x, (∃ job, x = .running job ∨ x = .died job) →
      p'.workers.count x = p.workers.count x) : p'.Tallied where
  ids := by rw [hposted, h.ids]
  posted_eq := by rw [hposted, hcalled, hqueue, h.posted_eq]
  called_count job := by
    rw [hcalled, hcount _ ⟨job, .inl rfl⟩, hcount _ ⟨job, .inr rfl⟩, answered, hanswers]
    exact h.called_count job
  verdict := by rw [hanswers]; exact h.verdict

/-- Replacing a worker that holds no job by another one moves no job. -/
private theorem count_set_idle {ws : List Worker} {i : Nat} {w v x : Worker}
    (h : ws[i]? = some w) (hw : w ≠ x) (hv : v ≠ x) : (ws.set i v).count x = ws.count x := by
  have := count_set_add h v x
  simpa [hw, hv] using this

theorem Tallied.step (h : p.Tallied) (hstep : Step p a p') : p'.Tallied := by
  cases hstep with
  | post batch options hphase =>
    refine ⟨?_, ?_, h.called_count, h.verdict⟩
    · simp [Pool.post, h.ids, List.range_succ]
    · simp [Pool.post, h.posted_eq]
  | notifyNobody howed hnone => exact tallied_of_workers h rfl rfl rfl rfl fun _ _ => rfl
  | wake howed hworker =>
    refine tallied_of_workers h rfl rfl rfl rfl ?_
    rintro x ⟨job, rfl | rfl⟩ <;> exact count_set_idle hworker (by simp) (by simp)
  -- a job goes from the queue to the calls and to a worker, and from there to the answers or
  -- down with the worker
  | @take i w job rest hworker hlooks hqueue =>
    refine ⟨h.ids, ?_, ?_, h.verdict⟩
    · simp [h.posted_eq, hqueue]
    · intro x
      have hrunning := count_set_add hworker (.running job) (.running x)
      have hdied := count_set_add hworker (.running job) (.died x)
      have hcalled := h.called_count x
      have hw : w ≠ .running x ∧ w ≠ .died x := by
        rcases hlooks with rfl | rfl <;> simp
      simp only [hw.1, hw.2, if_false, reduceCtorEq, Worker.running.injEq] at hrunning hdied
      simp only [List.count_append, List.count_singleton, beq_iff_eq, answered] at hcalled ⊢
      omega
  | sleep hworker hlooks hqueue hphase =>
    refine tallied_of_workers h rfl rfl rfl rfl ?_
    rintro x ⟨job, rfl | rfl⟩ <;> rcases hlooks with rfl | rfl <;>
      exact count_set_idle hworker (by simp) (by simp)
  | leave hworker hlooks hqueue hphase =>
    refine tallied_of_workers h rfl rfl rfl rfl ?_
    rintro x ⟨job, rfl | rfl⟩ <;> rcases hlooks with rfl | rfl <;>
      exact count_set_idle hworker (by simp) (by simp)
  | @answer i job outcome reply hworker hverdict =>
    refine ⟨h.ids, h.posted_eq, ?_, ?_⟩
    · intro x
      have hrunning := count_set_add hworker .ready (.running x)
      have hdied := count_set_add hworker .ready (.died x)
      have hcalled := h.called_count x
      simp only [if_false, reduceCtorEq, Worker.running.injEq] at hrunning hdied
      simp only [answered, List.map_append, List.map_cons, List.map_nil, List.count_append,
        List.count_singleton, beq_iff_eq] at hcalled ⊢
      omega
    · intro x hx
      rcases List.mem_append.mp hx with hx | hx
      · exact h.verdict x hx
      · obtain rfl := List.mem_singleton.mp hx
        exact hverdict
  | @die i job outcome hworker hverdict =>
    refine ⟨h.ids, h.posted_eq, ?_, h.verdict⟩
    intro x
    have hrunning := count_set_add hworker (.died job) (.running x)
    have hdied := count_set_add hworker (.died job) (.died x)
    have hcalled := h.called_count x
    simp only [if_false, reduceCtorEq, Worker.running.injEq, Worker.died.injEq] at hrunning hdied
    simp only [answered] at hcalled ⊢
    omega
  | forget id => exact tallied_of_workers h rfl rfl rfl rfl fun _ _ => rfl
  | close hphase => exact tallied_of_workers h rfl rfl rfl rfl fun _ _ => rfl
  | wakeAll hphase =>
    refine tallied_of_workers h rfl rfl rfl rfl ?_
    rintro x ⟨job, rfl | rfl⟩ <;> exact count_map_wake (by simp) (by simp)
  | join hphase hgone => exact tallied_of_workers h rfl rfl rfl rfl fun _ _ => rfl

theorem Reachable.tallied (h : Reachable size p) : p.Tallied := by
  induction h with
  | start => exact tallied_start size
  | step a _ hstep ih => exact ih.step (step_of_step? hstep)

/-! ## Numbers name jobs -/

theorem Tallied.getElem?_posted (h : p.Tallied) {job : Job} (hj : job ∈ p.posted) :
    p.posted[job.id]? = some job := by
  obtain ⟨i, hi⟩ := List.mem_iff_getElem?.mp hj
  have hlt : i < p.posted.length := (List.getElem?_eq_some_iff.mp hi).1
  have hid : (p.posted.map Job.id)[i]? = some job.id := by rw [List.getElem?_map, hi]; rfl
  rw [h.ids, List.getElem?_range hlt] at hid
  cases hid
  exact hi

theorem Tallied.eq_of_id_eq (h : p.Tallied) {job other : Job} (hj : job ∈ p.posted)
    (ho : other ∈ p.posted) (hid : job.id = other.id) : job = other := by
  have hjob := h.getElem?_posted hj
  rw [hid, h.getElem?_posted ho] at hjob
  exact (Option.some.inj hjob).symm

theorem Tallied.nodup_ids (h : p.Tallied) : (p.posted.map Job.id).Nodup := by
  rw [h.ids]
  exact List.nodup_range

theorem Tallied.count_posted (h : p.Tallied) (job : Job) :
    p.posted.count job = if job ∈ p.posted then 1 else 0 := by
  split
  · exact List.count_eq_one_of_mem (List.Nodup.of_map _ h.nodup_ids) ‹_›
  · exact List.count_eq_zero_of_not_mem ‹_›

/-! ## One place for each job -/

theorem Tallied.count_places (h : p.Tallied) (job : Job) :
    p.queue.count job + p.workers.count (.running job) + p.answered.count job +
      p.workers.count (.died job) = if job ∈ p.posted then 1 else 0 := by
  have hcalled := h.called_count job
  calc p.queue.count job + p.workers.count (.running job) + p.answered.count job +
        p.workers.count (.died job)
      = p.called.count job + p.queue.count job := by omega
    _ = p.posted.count job := by rw [h.posted_eq, List.count_append]
    _ = if job ∈ p.posted then 1 else 0 := h.count_posted job

theorem Tallied.mem_posted_of_answer (h : p.Tallied) {a : Answer} (ha : a ∈ p.answers) :
    a.job ∈ p.posted := by
  have hplaces := h.count_places a.job
  have hpos : 0 < p.answered.count a.job :=
    List.count_pos_iff.mpr (List.mem_map_of_mem ha)
  by_contra hnot
  rw [if_neg hnot] at hplaces
  omega

theorem Tallied.mem_posted_of_died (h : p.Tallied) {job : Job} (hw : .died job ∈ p.workers) :
    job ∈ p.posted := by
  have hplaces := h.count_places job
  have hpos := List.count_pos_iff.mpr hw
  by_contra hnot
  rw [if_neg hnot] at hplaces
  omega

theorem Tallied.not_mem_answered_of_died (h : p.Tallied) {job : Job}
    (hw : .died job ∈ p.workers) : job ∉ p.answered := by
  intro ha
  have hplaces := h.count_places job
  have hdied := List.count_pos_iff.mpr hw
  have hanswered := List.count_pos_iff.mpr ha
  split at hplaces <;> omega

theorem Tallied.isLost_iff (h : p.Tallied) {job : Job} (hj : job ∈ p.posted) :
    p.isLost job.id = true ↔ .died job ∈ p.workers := by
  unfold isLost
  rw [List.any_eq_true]
  constructor
  · rintro ⟨w, hw, hid⟩
    cases w with
    | died other =>
      have hid : other.id = job.id := by simpa using hid
      rwa [← h.eq_of_id_eq (h.mem_posted_of_died hw) hj hid]
    | _ => cases hid
  · intro hw
    exact ⟨_, hw, by simp⟩

/-! ## What callers get -/

theorem Tallied.find?_answer (h : p.Tallied) {a : Answer} (ha : a ∈ p.answers) :
    p.answers.find? (fun b => b.job.id = a.job.id) = some a := by
  have hnodup : p.answered.Nodup := by
    rw [List.nodup_iff_count]
    intro job
    have hplaces := h.count_places job
    split at hplaces <;> omega
  obtain ⟨b, hb⟩ : ∃ b, p.answers.find? (fun b => b.job.id = a.job.id) = some b := by
    apply Option.isSome_iff_exists.mp
    rw [List.find?_isSome]
    exact ⟨a, ha, by simp⟩
  have hmem := List.mem_of_find?_eq_some hb
  have hid : b.job.id = a.job.id := by simpa using List.find?_some hb
  have hjob := h.eq_of_id_eq (h.mem_posted_of_answer hmem) (h.mem_posted_of_answer ha) hid
  rw [hb, List.inj_on_of_nodup_map hnodup hmem ha hjob]

theorem Tallied.future?_of_answer (h : p.Tallied) {a : Answer} (ha : a ∈ p.answers) :
    p.future? a.job.id = some a.reply := by
  unfold future?
  rw [h.find?_answer ha]

theorem Tallied.find?_eq_none (h : p.Tallied) {job : Job} (hj : job ∈ p.posted)
    (hnot : job ∉ p.answered) : p.answers.find? (fun b => b.job.id = job.id) = none := by
  rw [List.find?_eq_none]
  intro b hb hid
  apply hnot
  rw [← h.eq_of_id_eq (h.mem_posted_of_answer hb) hj (by simpa using hid)]
  exact List.mem_map_of_mem hb

theorem Tallied.future?_of_died (h : p.Tallied) {job : Job} (hw : .died job ∈ p.workers) :
    p.future? job.id = some (.error .droppedByWorker) := by
  have hj := h.mem_posted_of_died hw
  unfold future?
  rw [h.find?_eq_none hj (h.not_mem_answered_of_died hw)]
  simp [(h.isLost_iff hj).mpr hw]

/-! ## Deaths -/

theorem verdict_eq_none_iff {items allowed : Nat} {outcome : Outcome} :
    verdict items allowed outcome = none ↔ outcome = .panicked .lethal := by
  cases outcome with
  | panicked panic => cases panic <;> simp [verdict]
  | _ => simp [verdict]

theorem count_lost (p : Pool) (job : Job) : p.lost.count job = p.workers.count (.died job) := by
  rw [lost, List.count_filterMap, List.count]
  apply List.countP_congr
  intro w _
  cases w <;> simp [Worker.lost?]

theorem length_lost (p : Pool) : p.lost.length = p.deaths := by
  rw [lost, deaths, List.length_filterMap_eq_countP]
  apply List.countP_congr
  intro w _
  cases w <;> simp [Worker.lost?, Worker.isDead]

theorem Tallied.deaths_eq (h : p.Tallied) :
    p.deaths = (p.posted.filter fun job => p.isLost job.id).length := by
  have hlost : p.lost.Nodup := by
    rw [List.nodup_iff_count]
    intro job
    have hplaces := h.count_places job
    rw [count_lost]
    split at hplaces <;> omega
  have hposted : (p.posted.filter fun job => p.isLost job.id).Nodup :=
    (List.Nodup.of_map _ h.nodup_ids).filter _
  rw [← length_lost]
  apply List.Perm.length_eq
  rw [List.perm_ext_iff_of_nodup hlost hposted]
  intro job
  rw [← List.count_pos_iff, count_lost, List.count_pos_iff, List.mem_filter]
  constructor
  · intro hw
    have hj := h.mem_posted_of_died hw
    exact ⟨hj, (h.isLost_iff hj).mpr hw⟩
  · rintro ⟨hj, hw⟩
    exact (h.isLost_iff hj).mp hw

theorem Step.deaths_eq (hstep : Step p a p') (hlethal : ∀ i, a ≠ .finish i (.panicked .lethal)) :
    p'.deaths = p.deaths := by
  have hset : ∀ {i : Nat} {w v : Worker}, p.workers[i]? = some w → w.isDead = false →
      v.isDead = false → (p.workers.set i v).countP Worker.isDead = p.deaths := by
    intro i w v hworker hw hv
    have hcount := countP_set_add hworker v Worker.isDead
    simpa [hw, hv, deaths] using hcount
  cases hstep with
  | wake howed hworker => exact hset hworker rfl rfl
  | take hworker hlooks hqueue => exact hset hworker (by rcases hlooks with rfl | rfl <;> rfl) rfl
  | sleep hworker hlooks hqueue hphase =>
    exact hset hworker (by rcases hlooks with rfl | rfl <;> rfl) rfl
  | leave hworker hlooks hqueue hphase =>
    exact hset hworker (by rcases hlooks with rfl | rfl <;> rfl) rfl
  | answer hworker hverdict => exact hset hworker rfl rfl
  | die hworker hverdict =>
    have houtcome := verdict_eq_none_iff.mp hverdict
    exact absurd (by rw [houtcome]) (hlethal _)
  | wakeAll hphase =>
    simp only [deaths, List.countP_map]
    apply List.countP_congr
    intro w _
    cases w <;> simp [Worker.wake, Worker.isDead]
  | post | notifyNobody | forget | close | join => rfl

/-! ## The account -/

/-- Every job is accounted for, whatever its call came to. -/
structure Accounted (p : Pool) : Prop where
  /-- A posted job is queued, being run, answered or lost: one of these, and once.  No other
  job is anywhere. -/
  place : ∀ job, p.queue.count job + p.workers.count (.running job) + p.answered.count job +
    p.workers.count (.died job) = if job ∈ p.posted then 1 else 0
  /-- An answer is the verdict on the call for that job, and goes to nobody else. -/
  answer : ∀ a ∈ p.answers, a.job.verdict a.outcome = some a.reply ∧
    p.delivered? a.job.id = if a.job.id ∈ p.forgotten then none else some a.reply
  lost : ∀ job, .died job ∈ p.workers → p.future? job.id = some (.error .droppedByWorker)
  /-- The model was called at most once under each number. -/
  called_once : (p.called.map Job.id).Nodup
  /-- A call was for the batch and the options that were posted under its number. -/
  called_posted : ∀ job ∈ p.called, p.posted[job.id]? = some job
  deaths : p.deaths = (p.posted.filter fun job => p.isLost job.id).length
  /-- A caller who gives up changes nothing but that. -/
  forget : ∀ id, p.step? (.forget id) = some { p with forgotten := id :: p.forgotten }
  /-- Nothing but a lethal panic costs a worker. -/
  survive : ∀ a p', p.step? a = some p' → (∀ i, a ≠ .finish i (.panicked .lethal)) →
    p'.deaths = p.deaths

theorem Reachable.accounted (h : Reachable size p) : p.Accounted := by
  have htally := h.tallied
  have hcalled : ∀ job ∈ p.called, job ∈ p.posted := by
    intro job hj
    rw [htally.posted_eq]
    exact List.mem_append_left _ hj
  refine ⟨htally.count_places, ?_, fun _ => htally.future?_of_died, ?_, ?_, htally.deaths_eq,
    fun _ => rfl, fun _ _ hstep => (step_of_step? hstep).deaths_eq⟩
  · intro a ha
    refine ⟨htally.verdict a ha, ?_⟩
    rw [delivered?, htally.future?_of_answer ha]
  · have hids := htally.nodup_ids
    rw [htally.posted_eq, List.map_append] at hids
    exact hids.of_append_left
  · intro job hj
    exact htally.getElem?_posted (hcalled job hj)

/-- Two workers and three jobs: the first job is lost with its worker, the caller of the
second gives up before it fails, and the third stays in the queue. -/
def lossyRun : List Action :=
  [.post [["a"]] default, .post [["b"]] default, .post [["c"]] default, .notify none,
    .look 0, .look 1, .forget 1, .finish 0 (.panicked .lethal), .finish 1 (.failed (.stated "no"))]

theorem accounted_lossyRun : ∃ p, (Pool.start 2).run? lossyRun = some p ∧ Reachable 2 p ∧
    p.deaths = 1 ∧ p.answers.length = 1 ∧ p.queue.length = 1 ∧ p.Accounted := by
  obtain ⟨p, hrun⟩ : ∃ p, (Pool.start 2).run? lossyRun = some p := ⟨_, rfl⟩
  have hp : Reachable 2 p := Reachable.start.run hrun
  refine ⟨p, hrun, hp, ?_, ?_, ?_, hp.accounted⟩
  all_goals
    cases hrun
    rfl

end DecodingDesk.Pool

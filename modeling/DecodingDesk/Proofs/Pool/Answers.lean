import DecodingDesk.Proofs.Pool.Accounting
/-!
# Answers of a model

In a pool that makes its calls to one model, what a job's caller gets depends on the
job and the model alone: it is what `answerAlone` says, whenever it comes and whoever
else uses the pool.
-/

namespace DecodingDesk.Pool

open Model (Outcome)

variable {model : Model} {p p' : Pool} {a : Action}

/-- A job is answered only with outputs of the model that keep to the contract. -/
theorem outputs_of_answerAlone {options : Options} {batch : Batch} {os : List Model.Output}
    (h : answerAlone model options batch = .ok os) :
    model batch options = .outputs os ∧ os.length = batch.length ∧
      ∀ o ∈ os, o.Conforms options.params.numHypotheses.toNat := by
  unfold answerAlone at h
  cases hm : model batch options with
  | outputs answers =>
    rw [hm] at h
    obtain ⟨rfl, hlength, hall⟩ := (check_eq_ok_iff _ _ _ _).mp h
    exact ⟨rfl, hlength, hall⟩
  | failed e =>
    rw [hm] at h
    cases h
  | panicked panic =>
    rw [hm] at h
    cases panic <;> cases h

/-- Every call so far came to what the model says. -/
structure Obeys (model : Model) (p : Pool) : Prop where
  answer : ∀ a ∈ p.answers, a.outcome = model a.job.batch a.job.options
  died : ∀ job, .died job ∈ p.workers → job.verdict (model job.batch job.options) = none

theorem obeys_start (model : Model) (size : Nat) : Obeys model (Pool.start size) where
  answer a ha := by simp [Pool.start] at ha
  died job hw := by simp [Pool.start] at hw

private theorem died_mem_of_set {ws : List Worker} {i : Nat} {w : Worker} {job : Job}
    (h : .died job ∈ ws.set i w) : .died job ∈ ws ∨ w = .died job := by
  rcases List.mem_or_eq_of_mem_set h with h | h
  · exact .inl h
  · exact .inr h.symm

theorem Obeys.step (h : Obeys model p) (hfollows : p.Follows model a) (hstep : Step p a p') :
    Obeys model p' := by
  have hidle : ∀ {i : Nat} {w : Worker}, w.lost? = none → ∀ job,
      .died job ∈ p.workers.set i w → job.verdict (model job.batch job.options) = none := by
    intro i w hw job hmem
    rcases died_mem_of_set hmem with hmem | rfl
    · exact h.died job hmem
    · cases hw
  cases hstep with
  | wake howed hworker => exact ⟨h.answer, hidle rfl⟩
  | take hworker hlooks hqueue => exact ⟨h.answer, hidle rfl⟩
  | sleep hworker hlooks hqueue hphase => exact ⟨h.answer, hidle rfl⟩
  | leave hworker hlooks hqueue hphase => exact ⟨h.answer, hidle rfl⟩
  | answer hworker hverdict =>
    refine ⟨?_, hidle rfl⟩
    intro x hx
    rcases List.mem_append.mp hx with hx | hx
    · exact h.answer x hx
    · obtain rfl := List.mem_singleton.mp hx
      exact hfollows _ hworker
  | die hworker hverdict =>
    refine ⟨h.answer, ?_⟩
    intro job hmem
    rcases died_mem_of_set hmem with hmem | heq
    · exact h.died job hmem
    · cases heq
      rw [← hfollows _ hworker]
      exact hverdict
  | wakeAll hphase =>
    refine ⟨h.answer, ?_⟩
    intro job hmem
    obtain ⟨w, hw, hwake⟩ := List.mem_map.mp hmem
    cases w <;> cases hwake
    exact h.died job hw
  | post | notifyNobody | forget | close | join => exact ⟨h.answer, h.died⟩

/-- What a worker has made of a job: it was answered, or the worker died of it. -/
inductive Replied (p : Pool) : Job → Reply → Prop where
  | answered {x : Answer} (hx : x ∈ p.answers) : Replied p x.job x.reply
  | dropped {job : Job} (hdied : .died job ∈ p.workers) :
      Replied p job (.error .droppedByWorker)

/-- A caller gets what a worker has made of his job, or learns that it was left in a pool that
is gone. -/
theorem Tallied.replied_or_left (h : p.Tallied) {job : Job} (hj : job ∈ p.posted) {reply : Reply}
    (hreply : p.future? job.id = some reply) :
    p.Replied job reply ∨ p.phase = .joined ∧ reply = .error .droppedByWorker := by
  unfold future? at hreply
  split at hreply
  · rename_i x hfind
    have hx := List.mem_of_find?_eq_some hfind
    have hid : x.job.id = job.id := by simpa using List.find?_some hfind
    obtain rfl := h.eq_of_id_eq (h.mem_posted_of_answer hx) hj hid
    cases hreply
    exact .inl (.answered hx)
  · split at hreply
    · rename_i hgone
      cases hreply
      rcases Bool.or_eq_true _ _ ▸ hgone with hlost | hleft
      · exact .inl (.dropped ((h.isLost_iff hj).mp hlost))
      · exact .inr ⟨of_decide_eq_true (Bool.and_eq_true _ _ ▸ hleft).1, rfl⟩
    · cases hreply

theorem Tallied.replied (h : p.Tallied) (hphase : p.phase ≠ .joined) {job : Job}
    (hj : job ∈ p.posted) {reply : Reply} (hreply : p.future? job.id = some reply) :
    p.Replied job reply :=
  (h.replied_or_left hj hreply).resolve_right fun hleft => hphase hleft.1

/-- What a worker has made of a job is what the model alone gives for it. -/
theorem Obeys.eq_of_replied (h : Obeys model p) (htally : p.Tallied) {job : Job} {reply : Reply}
    (hreply : p.Replied job reply) : reply = answerAlone model job.options job.batch := by
  have hverdict : answerAlone model job.options job.batch =
      (job.verdict (model job.batch job.options)).getD (.error .droppedByWorker) := rfl
  rw [hverdict]
  cases hreply with
  | answered hx => rw [← h.answer _ hx, htally.verdict _ hx, Option.getD_some]
  | dropped hdied => rw [h.died job hdied, Option.getD_none]

/-- What a job's caller gets is what the model alone gives for the job. -/
theorem Obeys.eq_answerAlone (h : Obeys model p) (htally : p.Tallied)
    (hphase : p.phase ≠ .joined) {job : Job} (hj : job ∈ p.posted) {reply : Reply}
    (hreply : p.future? job.id = some reply) :
    reply = answerAlone model job.options job.batch :=
  h.eq_of_replied htally (htally.replied hphase hj hreply)

/-- A job that is not settled waits in the queue or is being run. -/
theorem Tallied.mem_of_future?_eq_none (h : p.Tallied) {job : Job} (hj : job ∈ p.posted)
    (hnone : p.future? job.id = none) : job ∈ p.queue ∨ .running job ∈ p.workers := by
  have hplaces := h.count_places job
  rw [if_pos hj] at hplaces
  have hanswered : p.answered.count job = 0 := by
    rw [List.count_eq_zero]
    intro hmem
    obtain ⟨x, hx, rfl⟩ := List.mem_map.mp hmem
    rw [h.future?_of_answer hx] at hnone
    cases hnone
  have hdied : p.workers.count (.died job) = 0 := by
    rw [List.count_eq_zero]
    intro hmem
    rw [h.future?_of_died hmem] at hnone
    cases hnone
  by_cases hqueue : job ∈ p.queue
  · exact .inl hqueue
  · right
    rw [← List.count_pos_iff]
    have := List.count_eq_zero_of_not_mem hqueue
    omega

theorem Obeys.not_mem_died (h : Obeys model p) (hmodel : ∀ b o, model b o ≠ .panicked .lethal)
    (job : Job) : .died job ∉ p.workers := by
  intro hw
  exact hmodel _ _ (verdict_eq_none_iff.mp (h.died job hw))

end DecodingDesk.Pool

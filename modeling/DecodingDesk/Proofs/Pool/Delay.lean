import DecodingDesk.Proofs.Pool.Answers
import DecodingDesk.Proofs.Pool.Closing
import DecodingDesk.Proofs.Pool.Wakeup
/-!
# How far a job is from its answer

A number that says how much has still to happen before a job is settled: the jobs up
to it that wait in the queue or are being run, and one more while everybody sleeps.
Nobody raises it, because jobs that are posted later wait behind; and as long as the
job is not settled, somebody lowers it as soon as he acts.
-/

namespace DecodingDesk.Pool

variable {size : Nat} {p p' : Pool} {a : Action}

/-- The jobs in the queue with at most some number. -/
def ahead (p : Pool) (id : Nat) : Nat :=
  p.queue.countP fun job => job.id ≤ id

/-- Whether a worker runs a job with at most some number. -/
def Worker.runsUpTo (id : Nat) : Worker → Bool
  | running job => job.id ≤ id
  | _ => false

/-- Whether jobs up to a number wait while everybody sleeps. -/
def isIdleBefore (p : Pool) (id : Nat) : Bool :=
  0 < p.ahead id && p.workers.all (· = .asleep)

/-- What has still to happen before the job with a number is settled. -/
def delay (p : Pool) (id : Nat) : Nat :=
  2 * p.ahead id + p.workers.countP (Worker.runsUpTo id) + if p.isIdleBefore id then 1 else 0

theorem isIdleBefore_eq_false {i : Nat} {w : Worker} (hworker : p.workers[i]? = some w)
    (hw : w ≠ .asleep) (id : Nat) : p.isIdleBefore id = false := by
  have hall : p.workers.all (· = .asleep) = false := by
    rw [List.all_eq_false]
    exact ⟨w, List.mem_of_getElem? hworker, by simpa using hw⟩
  simp [isIdleBefore, hall]

/-- A worker that does not go to sleep lowers a delay by at least what it takes off the queue
and off itself. -/
private theorem delay_add_le_of_set {i : Nat} {w v : Worker}
    (hworker : p.workers[i]? = some w) (hv : v ≠ .asleep)
    (hworkers : p'.workers = p.workers.set i v) {id k : Nat}
    (hle : 2 * p'.ahead id + (if v.runsUpTo id then 1 else 0) + k ≤
      2 * p.ahead id + (if w.runsUpTo id then 1 else 0) + if p.isIdleBefore id then 1 else 0) :
    p'.delay id + k ≤ p.delay id := by
  have hi : p'.workers[i]? = some v := by
    rw [hworkers]
    exact getElem?_set_of_getElem? hworker v
  have hcount := countP_set_add hworker v (Worker.runsUpTo id)
  rw [delay, delay, isIdleBefore_eq_false hi hv, hworkers]
  simp only [Bool.false_eq_true, if_false]
  omega

theorem ahead_of_queue_cons {job : Job} {rest : List Job} (hqueue : p.queue = job :: rest)
    (id : Nat) :
    p.ahead id = rest.countP (fun job => job.id ≤ id) + if job.id ≤ id then 1 else 0 := by
  simp [ahead, hqueue, List.countP_cons]

theorem Step.delay_le (hstep : Step p a p') (hphase : p.phase = .serving) {id : Nat}
    (hid : id < p.posted.length) : p'.delay id ≤ p.delay id := by
  cases hstep with
  | post batch options _ =>
    have hahead : (p.post batch options).ahead id = p.ahead id := by
      simp only [ahead, Pool.post, List.countP_append, List.countP_singleton]
      rw [if_neg (by simpa using hid)]
      rfl
    simp only [delay, isIdleBefore, hahead]
    exact Nat.le_refl _
  | wake howed hworker =>
    refine delay_add_le_of_set (k := 0) hworker (v := .woken) (by simp) rfl ?_
    simp only [Worker.runsUpTo, ahead, Bool.false_eq_true, if_false]
    omega
  | take hworker hlooks hqueue =>
    refine delay_add_le_of_set (k := 0) hworker (by simp) rfl ?_
    rw [ahead_of_queue_cons hqueue]
    simp only [ahead, Worker.runsUpTo, decide_eq_true_eq]
    split <;> omega
  | sleep hworker hlooks hqueue _ =>
    have hcount := countP_set_add hworker .asleep (Worker.runsUpTo id)
    have hidle : (Worker.runsUpTo id : Worker → Bool) .asleep = false := rfl
    simp only [delay, isIdleBefore, ahead, hqueue, List.countP_nil, Nat.lt_irrefl, hidle,
      decide_false, Bool.false_and, Bool.false_eq_true, if_false] at hcount ⊢
    omega
  | leave hworker hlooks hqueue hclosed => exact absurd hphase hclosed
  | answer hworker hverdict =>
    refine delay_add_le_of_set (k := 0) hworker (by simp) rfl ?_
    simp only [Worker.runsUpTo, ahead, Bool.false_eq_true, if_false]
    omega
  | die hworker hverdict =>
    refine delay_add_le_of_set (k := 0) hworker (by simp) rfl ?_
    simp only [Worker.runsUpTo, ahead, Bool.false_eq_true, if_false]
    omega
  | wakeAll hclosed =>
    rw [hphase] at hclosed
    cases hclosed
  | join hnotified _ =>
    rw [hphase] at hnotified
    cases hnotified
  | notifyNobody | forget | close => exact Nat.le_refl _

/-! ## Numbers in the queue -/

theorem Tallied.id_of_called (h : p.Tallied) {job : Job} (hj : job ∈ p.called) :
    job.id < p.called.length := by
  obtain ⟨i, hi⟩ := List.mem_iff_getElem?.mp hj
  have hlt := (List.getElem?_eq_some_iff.mp hi).1
  have hposted : p.posted[i]? = some job := by
    rw [h.posted_eq, List.getElem?_append_left hlt, hi]
  have hid : (p.posted.map Job.id)[i]? = some job.id := by
    rw [List.getElem?_map, hposted]
    rfl
  rw [h.ids, List.getElem?_range (List.getElem?_eq_some_iff.mp hposted).1] at hid
  cases hid
  exact hlt

theorem Tallied.id_of_queue (h : p.Tallied) {job : Job} {k : Nat} (hk : p.queue[k]? = some job) :
    job.id = p.called.length + k := by
  have hposted : p.posted[p.called.length + k]? = some job := by
    rw [h.posted_eq, List.getElem?_append_right (by omega), Nat.add_sub_cancel_left, hk]
  have hid : (p.posted.map Job.id)[p.called.length + k]? = some job.id := by
    rw [List.getElem?_map, hposted]
    rfl
  rw [h.ids, List.getElem?_range (List.getElem?_eq_some_iff.mp hposted).1] at hid
  exact (Option.some.inj hid).symm

theorem Tallied.mem_called_of_running (h : p.Tallied) {job : Job}
    (hw : .running job ∈ p.workers) : job ∈ p.called := by
  have hcalled := h.called_count job
  have hpos := List.count_pos_iff.mpr hw
  rw [← List.count_pos_iff]
  omega

theorem Tallied.id_lt_of_running (h : p.Tallied) {job other : Job} (hj : job ∈ p.queue)
    (hw : .running other ∈ p.workers) : other.id < job.id := by
  obtain ⟨k, hk⟩ := List.mem_iff_getElem?.mp hj
  have hcalled := h.id_of_called (h.mem_called_of_running hw)
  have hqueue := h.id_of_queue hk
  omega

theorem Tallied.head_id_le (h : p.Tallied) {job head : Job} {rest : List Job}
    (hqueue : p.queue = head :: rest) (hj : job ∈ p.queue) : head.id ≤ job.id := by
  obtain ⟨k, hk⟩ := List.mem_iff_getElem?.mp hj
  have hhead : p.queue[0]? = some head := by
    rw [hqueue]
    rfl
  have hheadId := h.id_of_queue hhead
  have hjobId := h.id_of_queue hk
  omega

/-! ## Who brings a job nearer -/

/-- Who acts in a pool: the posts that have still to notify somebody, or a worker. -/
inductive Actor where
  | posts
  | worker (i : Nat)

/-- Whose action it is, unless it is one of the callers'. -/
def Action.actor? : Action → Option Actor
  | notify _ => some .posts
  | look i | finish i _ => some (.worker i)
  | _ => none

/-- Whether anything that somebody does next brings a job nearer to its answer. -/
inductive Helps (p : Pool) (job : Job) : Actor → Prop where
  | posts (hqueue : job ∈ p.queue) (hworkers : p.workers ≠ [])
      (hall : ∀ w ∈ p.workers, w = .asleep) : Helps p job .posts
  | finishing {i : Nat} {other : Job} (hworker : p.workers[i]? = some (.running other))
      (hle : other.id ≤ job.id) : Helps p job (.worker i)
  | looking {i : Nat} {w : Worker} (hworker : p.workers[i]? = some w)
      (hlooks : w = .ready ∨ w = .woken) (hqueue : job ∈ p.queue) : Helps p job (.worker i)

variable {model : Model} {job : Job} {actor : Actor}

theorem asleep_mem_of_all (hworkers : p.workers ≠ []) (hall : ∀ w ∈ p.workers, w = .asleep) :
    p.workers[0]? = some .asleep := by
  have hpos := List.length_pos_iff.mpr hworkers
  rw [List.getElem?_eq_getElem hpos, hall _ (List.getElem_mem hpos)]

/-- As long as a job is not settled, somebody can bring it nearer. -/
theorem exists_helps (hreach : Reachable size p) (hobeys : Obeys model p)
    (hphase : p.phase = .serving) (hsize : 0 < size)
    (hmodel : ∀ b o, model b o ≠ .panicked .lethal) (hj : job ∈ p.posted)
    (hnone : p.future? job.id = none) : ∃ actor, p.Helps job actor := by
  have htally := hreach.tallied
  rcases htally.mem_of_future?_eq_none hj hnone with hqueue | hrunning
  -- a queued job is helped by the posts if everybody sleeps, and else by whoever is awake
  · by_cases hall : ∀ w ∈ p.workers, w = .asleep
    · have hworkers : p.workers ≠ [] := by
        rw [← List.length_pos_iff, hreach.length_workers]
        exact hsize
      exact ⟨_, .posts hqueue hworkers hall⟩
    · obtain ⟨w, hw, hawake⟩ : ∃ w ∈ p.workers, w ≠ .asleep := by simpa using hall
      obtain ⟨i, hi⟩ := List.mem_iff_getElem?.mp hw
      cases w with
      | ready => exact ⟨_, .looking hi (.inl rfl) hqueue⟩
      | woken => exact ⟨_, .looking hi (.inr rfl) hqueue⟩
      | asleep => exact absurd rfl hawake
      | running other =>
        exact ⟨_, .finishing hi (Nat.le_of_lt (htally.id_lt_of_running hqueue hw))⟩
      | died other => exact absurd hw (hobeys.not_mem_died hmodel other)
      | exited => exact absurd hphase (hreach.orderly.exited hw).1
  · obtain ⟨i, hi⟩ := List.mem_iff_getElem?.mp hrunning
    exact ⟨_, .finishing hi (Nat.le_refl _)⟩

/-- When everybody sleeps, a post has still to notify one of them. -/
theorem Attended.exists_unnotified (h : p.Attended) (hqueue : job ∈ p.queue)
    (hworkers : p.workers ≠ []) (hall : ∀ w ∈ p.workers, w = .asleep) :
    ∃ n, p.unnotified = n + 1 := by
  have hmem := List.mem_of_getElem? (asleep_mem_of_all hworkers hall)
  have hwoken : p.workers.count .woken = 0 := by
    rw [List.count_eq_zero]
    intro hw
    cases hall _ hw
  have howed := h.queue_le hmem
  have hpos := List.length_pos_of_mem hqueue
  exact ⟨p.unnotified - 1, by omega⟩

/-- Somebody who helps can act. -/
theorem Helps.exists_step (hhelps : p.Helps job actor) (h : p.Attended) :
    ∃ a p', a.actor? = some actor ∧ p.Follows model a ∧ Step p a p' := by
  cases hhelps with
  | posts hqueue hworkers hall =>
    obtain ⟨n, hn⟩ := h.exists_unnotified hqueue hworkers hall
    exact ⟨.notify (some 0), _, rfl, trivial, .wake hn (asleep_mem_of_all hworkers hall)⟩
  | @finishing i other hworker hle =>
    have hfollows : p.Follows model (.finish i (model other.batch other.options)) := by
      intro job hjob
      rw [hworker] at hjob
      cases hjob
      rfl
    cases hverdict : other.verdict (model other.batch other.options) with
    | none => exact ⟨_, _, rfl, hfollows, .die hworker hverdict⟩
    | some reply => exact ⟨_, _, rfl, hfollows, .answer hworker hverdict⟩
  | looking hworker hlooks hqueue =>
    cases hq : p.queue with
    | nil =>
      rw [hq] at hqueue
      cases hqueue
    | cons head rest => exact ⟨.look _, _, rfl, trivial, .take hworker hlooks hq⟩

/-! ## What helping comes to -/

theorem delay_lt_of_take (h : p.Tallied) {i : Nat} {w : Worker} {head : Job} {rest : List Job}
    (hworker : p.workers[i]? = some w) (hq : p.queue = head :: rest) (hqueue : job ∈ p.queue) :
    delay { p with
        queue := rest
        called := p.called ++ [head]
        workers := p.workers.set i (.running head) } job.id < p.delay job.id := by
  have hle := h.head_id_le hq hqueue
  apply delay_add_le_of_set (k := 1) hworker (by simp) rfl
  rw [ahead_of_queue_cons hq]
  simp only [ahead, Worker.runsUpTo, hle, decide_true, if_true]
  omega

theorem delay_lt_of_wake {i n : Nat} (hworker : p.workers[i]? = some .asleep)
    (hqueue : job ∈ p.queue) (hall : ∀ w ∈ p.workers, w = .asleep) :
    delay { p with unnotified := n, workers := p.workers.set i .woken } job.id <
      p.delay job.id := by
  have hahead : 0 < p.ahead job.id := List.countP_pos_iff.mpr ⟨job, hqueue, by simp⟩
  have hidle : p.isIdleBefore job.id = true := by
    rw [isIdleBefore, Bool.and_eq_true, decide_eq_true_eq, List.all_eq_true]
    exact ⟨hahead, fun w hw => by simp [hall w hw]⟩
  apply delay_add_le_of_set (k := 1) hworker (by simp) rfl
  simp only [Worker.runsUpTo, ahead, hidle, if_true, Bool.false_eq_true, if_false]
  omega

/-- A call for a job that is not behind ends, in whatever way. -/
theorem delay_lt_of_finish {i : Nat} {other : Job} {v : Worker}
    (hworker : p.workers[i]? = some (.running other)) (hle : other.id ≤ job.id)
    (hv : v ≠ .asleep) (hidle : v.runsUpTo job.id = false)
    (hworkers : p'.workers = p.workers.set i v) (hqueue : p'.queue = p.queue) :
    p'.delay job.id < p.delay job.id := by
  apply delay_add_le_of_set (k := 1) hworker hv hworkers
  have hruns : Worker.runsUpTo job.id (.running other) = true := by simpa [Worker.runsUpTo]
  simp only [ahead, hqueue, hidle, hruns, if_true, Bool.false_eq_true, if_false]
  omega

theorem Helps.delay_lt (hhelps : p.Helps job actor) (h : p.Tallied) (hstep : Step p a p')
    (hactor : a.actor? = some actor) : p'.delay job.id < p.delay job.id := by
  cases hstep with
  | notifyNobody howed hnone =>
    cases hactor
    cases hhelps with
    | posts hqueue hworkers hall =>
      exact absurd (List.mem_of_getElem? (asleep_mem_of_all hworkers hall)) hnone
  | wake howed hworker =>
    cases hactor
    cases hhelps with
    | posts hqueue hworkers hall => exact delay_lt_of_wake hworker hqueue hall
  | take hworker hlooks hq =>
    cases hactor
    cases hhelps with
    | finishing hrunning hle =>
      rw [hworker] at hrunning
      rcases hlooks with rfl | rfl <;> cases hrunning
    | looking _ _ hqueue => exact delay_lt_of_take h hworker hq hqueue
  | sleep hworker hlooks hq | leave hworker hlooks hq =>
    cases hactor
    cases hhelps with
    | finishing hrunning hle =>
      rw [hworker] at hrunning
      rcases hlooks with rfl | rfl <;> cases hrunning
    | looking _ _ hqueue =>
      rw [hq] at hqueue
      cases hqueue
  | answer hworker hverdict | die hworker hverdict =>
    cases hactor
    cases hhelps with
    | finishing hrunning hle =>
      rw [hworker] at hrunning
      cases hrunning
      exact delay_lt_of_finish hworker hle (by simp) rfl rfl rfl
    | looking hlooking hlooks _ =>
      rw [hworker] at hlooking
      cases hlooking
      rcases hlooks with hlooks | hlooks <;> cases hlooks
  | post | forget | close | wakeAll | join => cases hactor

/-- Others leave a worker alone that does not sleep. -/
theorem Step.getElem?_workers (hstep : Step p a p') (hphase : p.phase = .serving) {i : Nat}
    {w : Worker} (hworker : p.workers[i]? = some w) (hawake : w ≠ .asleep)
    (hactor : a.actor? ≠ some (.worker i)) : p'.workers[i]? = some w := by
  cases hstep with
  | @wake n j howed hj =>
    rw [List.getElem?_set_ne, hworker]
    rintro rfl
    rw [hworker] at hj
    exact hawake (Option.some.inj hj)
  | take | sleep | leave | answer | die =>
    rw [List.getElem?_set_ne, hworker]
    rintro rfl
    exact hactor rfl
  | wakeAll hclosed =>
    rw [hphase] at hclosed
    cases hclosed
  | post | notifyNobody | forget | close | join => exact hworker

theorem Step.mem_queue (hstep : Step p a p') (h : p.Tallied) (hqueue : job ∈ p.queue) :
    p'.delay job.id < p.delay job.id ∨ job ∈ p'.queue := by
  cases hstep with
  | take hworker hlooks hq => exact .inl (delay_lt_of_take h hworker hq hqueue)
  | post batch options hphase => exact .inr (List.mem_append_left _ hqueue)
  | _ => exact .inr hqueue

/-- As long as a job is not brought nearer, whoever helps goes on helping. -/
theorem Helps.step (hhelps : p.Helps job actor) (h : p.Tallied) (hphase : p.phase = .serving)
    (hstep : Step p a p') : p'.delay job.id < p.delay job.id ∨ p'.Helps job actor := by
  by_cases hactor : a.actor? = some actor
  · exact .inl (hhelps.delay_lt h hstep hactor)
  cases hhelps with
  | posts hqueue hworkers hall =>
    have hother : ∀ {i : Nat} {w : Worker}, p.workers[i]? = some w → w = .asleep :=
      fun hworker => hall _ (List.mem_of_getElem? hworker)
    cases hstep with
    | post batch options _ => exact .inr (.posts (List.mem_append_left _ hqueue) hworkers hall)
    | forget id => exact .inr (.posts hqueue hworkers hall)
    | close _ => exact .inr (.posts hqueue hworkers hall)
    | notifyNobody | wake => exact absurd rfl hactor
    | take hworker hlooks hq | sleep hworker hlooks hq | leave hworker hlooks hq =>
      rcases hlooks with rfl | rfl <;> cases hother hworker
    | answer hworker hverdict | die hworker hverdict => cases hother hworker
    | wakeAll hclosed =>
      rw [hphase] at hclosed
      cases hclosed
    | join hnotified _ =>
      rw [hphase] at hnotified
      cases hnotified
  | finishing hworker hle =>
    exact .inr (.finishing (hstep.getElem?_workers hphase hworker (by simp) hactor) hle)
  | @looking i w hworker hlooks hqueue =>
    have hawake : w ≠ .asleep := by rcases hlooks with rfl | rfl <;> simp
    have hstays := hstep.getElem?_workers hphase hworker hawake hactor
    exact (hstep.mem_queue h hqueue).imp id fun hqueue => .looking hstays hlooks hqueue

/-- When everybody sleeps or is gone and nobody is owed a notification, only callers act. -/
theorem Step.actor?_eq_none (hstep : Step p a p') (howed : p.unnotified = 0)
    (hidle : ∀ w ∈ p.workers, w = .asleep ∨ w.isLive = false) : a.actor? = none := by
  have hother : ∀ {i : Nat} {w : Worker}, p.workers[i]? = some w → w.isLive = true →
      w = .asleep := by
    intro i w hworker hlive
    refine (hidle w (List.mem_of_getElem? hworker)).resolve_right ?_
    simp [hlive]
  cases hstep with
  | notifyNobody hn | wake hn =>
    rw [howed] at hn
    cases hn
  | take hworker hlooks | sleep hworker hlooks | leave hworker hlooks =>
    rcases hlooks with rfl | rfl <;> cases hother hworker rfl
  | answer hworker | die hworker => cases hother hworker rfl
  | post | forget | close | wakeAll | join => rfl

end DecodingDesk.Pool

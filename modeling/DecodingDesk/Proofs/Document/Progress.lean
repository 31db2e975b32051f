import Mathlib.Data.Prod.Lex
import Mathlib.Order.WellFounded
import Mathlib.Tactic.Push
import DecodingDesk.Proofs.Document.Course
import DecodingDesk.Proofs.Pool.Delay
/-!
# A document task ends

A task that is not over can go on, or somebody in the pool can bring its oldest chunk
nearer to an answer.  The steps that the task has left and the delay of that chunk
never grow, whatever other callers post.  So the task ends in every run in which
nobody who can act is passed over for ever.
-/

namespace DecodingDesk.Document

open Text (Bytes)

/-! ## What a task has left to do -/

def Stage.preparations : Stage → ℕ
  | .opening => 3
  | .creating _ => 2
  | .loading _ _ => 1
  | _ => 0

namespace Task

variable {t t' : Task} {p p' : Pool} {fs fs' : Files}

/-- How often a task that knows its lines can still go on. -/
def steps (t : Task) : ℕ :=
  match t.stage with
  | .reading lines _ => 2 * lines.length + t.pending.length + 3
  | .draining _ => t.pending.length + 1
  | _ => 0

/-- What a task has left to do. -/
def left (t : Task) : ℕ ×ₗ ℕ :=
  toLex (t.stage.preparations, t.steps)

theorem left_lt_of_steps (hstage : t'.stage.preparations = t.stage.preparations)
    (hsteps : t'.steps < t.steps) : t'.left < t.left :=
  Prod.Lex.toLex_lt_toLex.mpr (.inr ⟨hstage, hsteps⟩)

theorem left_lt_of_preparations (hstage : t'.stage.preparations < t.stage.preparations) :
    t'.left < t.left :=
  Prod.Lex.toLex_lt_toLex.mpr (.inl hstage)

/-- Waiting for the oldest chunk ends the task or shortens the list of chunks under way. -/
theorem pending_of_writeOldest? {w : Writer} {next : Writer → Stage}
    (h : t.writeOldest? p fs w next = some (t', p', fs')) :
    (∃ r, t'.stage = .ended r) ∨
      ∃ w', t'.stage = next w' ∧ t'.pending.length + 1 = t.pending.length := by
  unfold writeOldest? at h
  split at h
  · cases h
  rename_i job rest hpending
  split at h
  · cases h
  · cases h
    exact .inl ⟨_, rfl⟩
  · split at h
    · cases h
      exact .inr ⟨_, rfl, by simp [hpending]⟩
    · cases h
      exact .inl ⟨_, rfl⟩

/-- A line that is read ends the task or posts at most one chunk. -/
theorem pending_of_readLine {w : Writer} {line : Bytes} {rest : List Bytes}
    (h : t.readLine p fs w line rest = (t', p', fs')) :
    (∃ r, t'.stage = .ended r) ∨
      t'.stage = .reading rest w ∧ t'.pending.length ≤ t.pending.length + 1 := by
  simp only [readLine, post_eq] at h
  split at h
  · cases h
    exact .inl ⟨_, rfl⟩
  · split at h
    · cases h
      exact .inr ⟨rfl, Nat.le_succ _⟩
    · cases h
      exact .inr ⟨rfl, by simp⟩

theorem left_lt_of_ended {r : Except Failure Nat} (hover : t'.stage = .ended r)
    (hresult : t.result? = none) : t'.left < t.left := by
  have hsteps : t'.steps = 0 := by rw [steps, hover]
  cases hstage : t.stage with
  | opening | creating source | loading source w =>
    apply left_lt_of_preparations
    rw [hstage, hover]
    exact Nat.succ_pos _
  | reading lines w | draining w =>
    apply left_lt_of_steps
    · rw [hstage, hover]
      rfl
    · rw [hsteps, steps, hstage]
      exact Nat.succ_pos _
  | ended r' =>
    rw [result?, hstage] at hresult
    cases hresult

theorem left_lt_of_reading {lines : List Bytes} {w : Writer} (hstage : t.stage = .reading lines w)
    (h : t.step? p fs = some (t', p', fs')) : t'.left < t.left := by
  have hresult : t.result? = none := by rw [result?, hstage]
  have hsteps : t.steps = 2 * lines.length + t.pending.length + 3 := by rw [steps, hstage]
  simp only [step?, hstage] at h
  split at h
  · rcases pending_of_writeOldest? h with ⟨r, hover⟩ | ⟨w', hnext, hpending⟩
    · exact left_lt_of_ended hover hresult
    · apply left_lt_of_steps (by rw [hstage, hnext]; rfl)
      rw [hsteps, steps, hnext]
      show 2 * lines.length + t'.pending.length + 3 < _
      omega
  · split at h
    · rename_i line rest
      rcases pending_of_readLine (Option.some.inj h) with ⟨r, hover⟩ | ⟨hnext, hpending⟩
      · exact left_lt_of_ended hover hresult
      · apply left_lt_of_steps (by rw [hstage, hnext]; rfl)
        rw [hsteps, steps, hnext, List.length_cons]
        show 2 * rest.length + t'.pending.length + 3 < _
        omega
    · -- the lines are at their end, and at most one more chunk is posted
      simp only [post_eq] at h
      split at h <;> cases h
      · apply left_lt_of_steps (by rw [hstage]; rfl)
        rw [hsteps]
        show t.pending.length + 1 < _
        omega
      · apply left_lt_of_steps (by rw [hstage]; rfl)
        rw [hsteps]
        simp [steps]

theorem left_lt_of_draining {w : Writer} (hstage : t.stage = .draining w)
    (h : t.step? p fs = some (t', p', fs')) : t'.left < t.left := by
  have hresult : t.result? = none := by rw [result?, hstage]
  have hsteps : t.steps = t.pending.length + 1 := by rw [steps, hstage]
  simp only [step?, hstage] at h
  split at h
  · split at h <;> cases h <;> exact left_lt_of_ended rfl hresult
  · rcases pending_of_writeOldest? h with ⟨r, hover⟩ | ⟨w', hnext, hpending⟩
    · exact left_lt_of_ended hover hresult
    · apply left_lt_of_steps (by rw [hstage, hnext]; rfl)
      rw [hsteps, steps, hnext]
      show t'.pending.length + 1 < _
      omega

/-- Every step of a task takes something off what it has left to do. -/
theorem left_lt (h : t.step? p fs = some (t', p', fs')) : t'.left < t.left := by
  cases hstage : t.stage with
  | opening | creating source =>
    apply left_lt_of_preparations
    simp only [step?, hstage] at h
    rw [hstage]
    repeat' split at h
    all_goals
      cases h
      simp [Stage.preparations, fail, finish]
  | loading source w =>
    apply left_lt_of_preparations
    simp only [step?, hstage] at h
    rw [hstage]
    repeat' split at h
    all_goals
      cases h
      exact Nat.succ_pos _
  | reading lines w => exact left_lt_of_reading hstage h
  | draining w => exact left_lt_of_draining hstage h
  | ended r =>
    simp only [step?, hstage] at h
    cases h

/-! ## When a task has to wait -/

theorem writeOldest?_eq_none {w : Writer} {next : Writer → Stage}
    (h : t.writeOldest? p fs w next = none) :
    t.pending = [] ∨ ∃ job rest, t.pending = job :: rest ∧ p.future? job.id = none := by
  unfold writeOldest? at h
  split at h
  · exact .inl ‹_›
  · rename_i job rest hpending
    split at h
    · exact .inr ⟨job, rest, hpending, ‹_›⟩
    · cases h
    · split at h <;> cases h

theorem writeOldest?_eq_none_of_future? {w : Writer} {next : Writer → Stage} {job : Job}
    {rest : List Job} (hpending : t.pending = job :: rest) (h : p.future? job.id = none) :
    t.writeOldest? p fs w next = none := by
  simp only [writeOldest?, hpending, h]

/-- Whether waiting for the oldest chunk is what a task does next. -/
def waits (t : Task) (p : Pool) : Bool :=
  match t.stage with
  | .reading _ _ => window p ≤ t.pending.length
  | .draining _ => !t.pending.isEmpty
  | _ => false

/-- A task that is not over can go on unless its oldest chunk is not settled. -/
theorem step?_eq_none_iff (hsize : 0 < p.size) (hresult : t.result? = none) :
    t.step? p fs = none ↔
      t.waits p = true ∧ ∃ job rest, t.pending = job :: rest ∧ p.future? job.id = none := by
  cases hstage : t.stage with
  | opening | creating source | loading source w =>
    simp only [step?, waits, hstage, Bool.false_eq_true, false_and, iff_false]
    intro h
    repeat' split at h
    all_goals cases h
  | reading lines w =>
    simp only [step?, waits, hstage, decide_eq_true_eq]
    constructor
    · intro h
      split at h
      · rename_i hfull
        refine ⟨hfull, (writeOldest?_eq_none h).resolve_left fun hnil => ?_⟩
        rw [hnil, window, List.length_nil] at hfull
        omega
      · split at h
        · cases h
        · split at h <;> cases h
    · rintro ⟨hfull, job, rest, hpending, hfuture⟩
      rw [if_pos hfull]
      exact writeOldest?_eq_none_of_future? hpending hfuture
  | draining w =>
    simp only [step?, waits, hstage, Bool.not_eq_true']
    constructor
    · intro h
      split at h
      · split at h <;> cases h
      · rename_i hsome
        refine ⟨by simpa using hsome, (writeOldest?_eq_none h).resolve_left fun hnil => ?_⟩
        rw [hnil] at hsome
        exact hsome rfl
    · rintro ⟨hsome, job, rest, hpending, hfuture⟩
      rw [if_neg (by simp [hsome])]
      exact writeOldest?_eq_none_of_future? hpending hfuture
  | ended r =>
    rw [result?, hstage] at hresult
    cases hresult

/-- What others do to the pool does not stop a task that can go on. -/
theorem step?_ne_none (hsize : 0 < p.size) (hsize' : p'.size = p.size)
    (hfuture : ∀ id, p'.future? id = none → p.future? id = none)
    (h : t.step? p fs ≠ none) : t.step? p' fs ≠ none := by
  have hresult : t.result? = none := by
    unfold result?
    split
    · rename_i r hstage
      simp [step?, hstage] at h
    · rfl
  intro hnone
  obtain ⟨hwaits, job, rest, hpending, hjob⟩ :=
    (step?_eq_none_iff (by rw [hsize']; exact hsize) hresult).mp hnone
  apply h
  have hsame : t.waits p' = t.waits p := by
    unfold waits window
    rw [hsize']
  rw [hsame] at hwaits
  exact (step?_eq_none_iff hsize hresult).mpr ⟨hwaits, job, rest, hpending, hfuture _ hjob⟩

end Task

/-! ## What is helped on -/

/-- Something happens at last if somebody always helps it on: whatever happens brings it nearer,
or leaves it as near and is not done by whoever helps, who goes on helping; and nobody who
helps from some time on is passed over for ever. -/
theorem exists_of_helps {α Actor : Type} [Preorder α] [WellFoundedLT α] (rank : ℕ → α)
    (helps acts : ℕ → Actor → Prop) {goal : ℕ → Prop}
    (hhelps : ∀ n, ¬ goal n → ∃ actor, helps n actor)
    (hnext : ∀ n actor, ¬ goal n → ¬ goal (n + 1) → helps n actor → ¬ rank (n + 1) < rank n →
      rank (n + 1) = rank n ∧ helps (n + 1) actor ∧ ¬ acts n actor)
    (hfair : ∀ n actor, (∀ k, n ≤ k → ¬ goal k ∧ helps k actor) → ∃ k, n ≤ k ∧ acts k actor) :
    ∃ n, goal n := by
  by_contra hnever
  rw [not_exists] at hnever
  -- a lowest rank would have somebody who helps, and who acts later on
  obtain ⟨low, ⟨n, rfl⟩, hlow⟩ := WellFounded.has_min wellFounded_lt (Set.range rank) ⟨_, 0, rfl⟩
  obtain ⟨actor, hactor⟩ := hhelps n (hnever n)
  have hstays : ∀ k, n ≤ k → rank k = rank n ∧ helps k actor := by
    intro k hk
    induction k, hk using Nat.le_induction with
    | base => exact ⟨rfl, hactor⟩
    | succ k _ ih =>
      obtain ⟨hrank, hhelps⟩ := ih
      have hnot : ¬ rank (k + 1) < rank k := by
        rw [hrank]
        exact hlow _ ⟨k + 1, rfl⟩
      obtain ⟨hsame, hhelps, -⟩ := hnext k actor (hnever k) (hnever (k + 1)) hhelps hnot
      exact ⟨hsame.trans hrank, hhelps⟩
  obtain ⟨k, hk, hacts⟩ := hfair n actor fun k hk => ⟨hnever k, (hstays k hk).2⟩
  obtain ⟨hrank, hhelps⟩ := hstays k hk
  have hnot : ¬ rank (k + 1) < rank k := by
    rw [hrank]
    exact hlow _ ⟨k + 1, rfl⟩
  exact (hnext k actor (hnever k) (hnever (k + 1)) hhelps hnot).2.2 hacts

namespace Site

variable {model : Model} {size : Nat} {s s' : Site} {m : Move}

/-! ## Who can go on -/

inductive Actor where
  | task
  | pool (actor : Pool.Actor)

/-- Whose move it is, unless it is one of the other callers'. -/
def Move.actor? : Move → Option Actor
  | .task => some .task
  | .pool a => a.actor?.map .pool

def CanAct (model : Model) (s : Site) (actor : Actor) : Prop :=
  ∃ m s', m.actor? = some actor ∧ s.Allows model m ∧ s.step? m = some s'

/-- How far the oldest chunk under way is from its answer. -/
def delay (s : Site) : ℕ :=
  match s.task.pending with
  | [] => 0
  | job :: _ => s.pool.delay job.id

def rank (s : Site) : (ℕ ×ₗ ℕ) ×ₗ ℕ :=
  toLex (s.task.left, s.delay)

/-- Whether anything that somebody does next brings the task nearer to its end. -/
inductive Helps (s : Site) : Actor → Prop where
  | task (hstep : s.task.step? s.pool s.files ≠ none) : Helps s .task
  | pool {job : Job} {rest : List Job} {actor : Pool.Actor}
      (hpending : s.task.pending = job :: rest) (hhelps : s.pool.Helps job actor) :
      Helps s (.pool actor)

/-- What helping needs: the pool is open, and the chunks under way are jobs of it. -/
structure Ready (model : Model) (size : Nat) (s : Site) : Prop where
  pool : Shared model size s.pool
  posted : ∀ job ∈ s.task.pending, job ∈ s.pool.posted

theorem Ready.size_pos (h : Ready model size s) (hsize : 0 < size) : 0 < s.pool.size := by
  rw [Pool.size, h.pool.reachable.length_workers]
  exact hsize

theorem rank_lt_of_task (h : s.step? .task = some s') : s'.rank < s.rank := by
  obtain ⟨⟨task, pool, files⟩, htask, rfl⟩ := Option.map_eq_some_iff.mp h
  exact Prod.Lex.toLex_lt_toLex.mpr (.inl (Task.left_lt htask))

theorem rank_of_delay {pool : Pool} (h : delay { s with pool } ≤ s.delay) :
    rank { s with pool } < s.rank ∨
      rank { s with pool } = s.rank ∧ delay { s with pool } = s.delay := by
  rcases Nat.lt_or_eq_of_le h with hlt | heq
  · exact .inl (Prod.Lex.toLex_lt_toLex.mpr (.inr ⟨rfl, hlt⟩))
  · exact .inr ⟨by rw [rank, rank, heq], heq⟩

theorem Ready.delay_le (h : Ready model size s) {a : Pool.Action} {pool : Pool}
    (hstep : Pool.Step s.pool a pool) : delay { s with pool } ≤ s.delay := by
  unfold delay
  cases hpending : s.task.pending with
  | nil => exact Nat.le_refl _
  | cons job rest =>
    apply hstep.delay_le h.pool.serving
    have hj := h.posted job (by rw [hpending]; exact List.mem_cons_self)
    exact (List.getElem?_eq_some_iff.mp
      (h.pool.reachable.tallied.getElem?_posted hj)).1

/-- As long as a task is not over, somebody can bring it nearer to its end. -/
theorem Ready.exists_helps (h : Ready model size s) (hsize : 0 < size)
    (hmodel : ∀ b o, model b o ≠ .panicked .lethal) (hresult : s.task.result? = none) :
    ∃ actor, s.Helps actor := by
  have hpos := h.size_pos hsize
  by_cases hstep : s.task.step? s.pool s.files = none
  · obtain ⟨-, job, rest, hpending, hfuture⟩ := (Task.step?_eq_none_iff hpos hresult).mp hstep
    have hj := h.posted job (by rw [hpending]; exact List.mem_cons_self)
    obtain ⟨actor, hhelps⟩ := Pool.exists_helps h.pool.reachable h.pool.obeys h.pool.serving
      hsize hmodel hj hfuture
    exact ⟨_, .pool hpending hhelps⟩
  · exact ⟨_, .task hstep⟩

theorem Ready.canAct (h : Ready model size s) {actor : Actor} (hhelps : s.Helps actor) :
    s.CanAct model actor := by
  cases hhelps with
  | task hstep =>
    obtain ⟨⟨task, pool, files⟩, hsome⟩ := Option.ne_none_iff_exists'.mp hstep
    exact ⟨.task, _, rfl, trivial, by rw [step?, hsome]; rfl⟩
  | @pool job rest actor hpending hhelps =>
    obtain ⟨a, pool, hactor, hfollows, hstep⟩ : ∃ a p', a.actor? = some actor ∧
        s.pool.Follows model a ∧ Pool.Step s.pool a p' :=
      hhelps.exists_step h.pool.reachable.attended
    refine ⟨.pool a, { s with pool }, by rw [Move.actor?, hactor]; rfl, ?_, ?_⟩
    · cases a with
      | close => cases hactor
      | _ => exact hfollows
    · rw [step?, Pool.step?_of_step hstep]
      rfl

/-- A move brings the task nearer to its end, or whoever helps goes on helping and has not
moved. -/
theorem Ready.helps_step (h : Ready model size s) (hsize : 0 < size) {actor : Actor}
    (hhelps : s.Helps actor) (hstep : s.step? m = some s') :
    s'.rank < s.rank ∨ s'.rank = s.rank ∧ s'.Helps actor ∧ m.actor? ≠ some actor := by
  cases m with
  | task => exact .inl (rank_lt_of_task hstep)
  | pool a =>
    obtain ⟨pool, hpool, rfl⟩ := Option.map_eq_some_iff.mp hstep
    have hpool := Pool.step_of_step? hpool
    have htally := h.pool.reachable.tallied
    refine (rank_of_delay (h.delay_le hpool)).imp id fun ⟨hrank, hdelay⟩ => ⟨hrank, ?_⟩
    cases hhelps with
    | task hcan =>
      have hpos := h.size_pos hsize
      refine ⟨.task (Task.step?_ne_none hpos hpool.length_workers ?_ hcan), ?_⟩
      · intro id hnone
        cases hreply : s.pool.future? id with
        | none => rfl
        | some reply =>
          rw [hpool.future?_eq_some htally h.pool.reachable.orderly hreply] at hnone
          cases hnone
      · cases a <;> simp [Move.actor?, Pool.Action.actor?]
    | @pool job rest actor hpending hhelps =>
      have hsame : pool.delay job.id = s.pool.delay job.id := by
        simpa only [delay, hpending] using hdelay
      constructor
      · refine .pool hpending ((hhelps.step htally h.pool.serving hpool).resolve_left ?_)
        omega
      · intro hactor
        obtain ⟨actor', ha, hsome⟩ := Option.map_eq_some_iff.mp hactor
        cases hsome
        have hlt := hhelps.delay_lt htally hpool ha
        omega

/-! ## Runs in which nobody is passed over for ever -/

/-- An endless run of a site; at some moments nothing may happen. -/
structure Run (model : Model) (start : Site) where
  site : ℕ → Site
  move : ℕ → Option Move
  first : site 0 = start
  rest : ∀ n, move n = none → site (n + 1) = site n
  next : ∀ n m, move n = some m →
    (site n).Allows model m ∧ (site n).step? m = some (site (n + 1))

/-- Whoever can act from some time on, acts. -/
def Run.Fair {start : Site} (r : Run model start) : Prop :=
  ∀ actor n, (∀ k, n ≤ k → (r.site k).CanAct model actor) →
    ∃ k m, n ≤ k ∧ r.move k = some m ∧ m.actor? = some actor

theorem Run.reachable {start : Site} (r : Run model start) (n : ℕ) :
    Reachable model start (r.site n) := by
  induction n with
  | zero =>
    rw [r.first]
    exact .start
  | succ n ih =>
    cases hmove : r.move n with
    | none =>
      rw [r.rest n hmove]
      exact ih
    | some m =>
      obtain ⟨hallows, hstep⟩ := r.next n m hmove
      exact ih.step m hallows hstep

/-! ## Runs that come to rest -/

def Possible (model : Model) (s : Site) : List Move → Prop
  | [] => True
  | m :: rest => s.Allows model m ∧ ∃ s', s.step? m = some s' ∧ Possible model s' rest

/-- The site after so many of some moves, or after all of them. -/
def after (s : Site) : List Move → ℕ → Site
  | [], _ | _, 0 => s
  | m :: rest, n + 1 => ((s.step? m).getD s).after rest n

theorem after_succ {moves : List Move} (h : Possible model s moves) {n : ℕ}
    (hmove : moves[n]? = some m) :
    (s.after moves n).Allows model m ∧
      (s.after moves n).step? m = some (s.after moves (n + 1)) := by
  induction moves generalizing s n with
  | nil => cases hmove
  | cons m' rest ih =>
    obtain ⟨hallows, s', hstep, hrest⟩ := h
    cases n with
    | zero =>
      cases hmove
      have hone : s.after (m :: rest) 1 = s' := by
        rw [after, hstep]
        cases rest <;> rfl
      rw [hone]
      exact ⟨hallows, hstep⟩
    | succ n =>
      have hnext := ih hrest hmove
      simp only [after, hstep, Option.getD_some]
      exact hnext

theorem after_of_length_le {moves : List Move} {n : ℕ} (hn : moves.length ≤ n) :
    s.after moves n = s.after moves moves.length := by
  induction moves generalizing s n with
  | nil => cases n <;> rfl
  | cons m rest ih =>
    obtain ⟨n, rfl⟩ : ∃ k, n = k + 1 := ⟨n - 1, by rw [List.length_cons] at hn; omega⟩
    exact ih (Nat.le_of_succ_le_succ hn)

/-- The run that makes some moves and then rests. -/
def Run.ofMoves {start : Site} (moves : List Move) (h : Possible model start moves) :
    Run model start where
  site := start.after moves
  move n := moves[n]?
  first := by cases moves <;> rfl
  rest n hn := by
    have hle := List.getElem?_eq_none_iff.mp hn
    rw [after_of_length_le (Nat.le_succ_of_le hle), after_of_length_le hle]
  next _ _ hmove := after_succ h hmove

/-- A run that rests where nobody can act is fair. -/
theorem Run.fair_ofMoves {start : Site} {moves : List Move} (h : Possible model start moves)
    (hrest : ∀ actor, ¬ (start.after moves moves.length).CanAct model actor) :
    (Run.ofMoves moves h).Fair := by
  intro actor n hcan
  have hlast := hcan (n + moves.length) (Nat.le_add_right _ _)
  have hsite : (Run.ofMoves moves h).site (n + moves.length) =
      start.after moves moves.length := after_of_length_le (Nat.le_add_left _ _)
  rw [hsite] at hlast
  exact absurd hlast (hrest actor)

/-- Nobody can act when the task is over, everybody sleeps and nobody is owed a
notification. -/
theorem not_canAct (hover : s.task.result? ≠ none) (howed : s.pool.unnotified = 0)
    (hasleep : ∀ w ∈ s.pool.workers, w = .asleep) (actor : Actor) :
    ¬ s.CanAct model actor := by
  rintro ⟨m, s', hactor, -, hstep⟩
  cases m with
  | task =>
    obtain ⟨r, htask, -⟩ := Option.map_eq_some_iff.mp hstep
    cases hstage : s.task.stage with
    | ended r => simp [Task.step?, hstage] at htask
    | _ => simp [Task.result?, hstage] at hover
  | pool a =>
    obtain ⟨pool, hpool, -⟩ := Option.map_eq_some_iff.mp hstep
    have hnobody := (Pool.step_of_step? hpool).actor?_eq_none howed fun w hw => .inl (hasleep w hw)
    rw [Move.actor?, hnobody] at hactor
    cases hactor

/-! ## Every fair run ends the task -/

theorem ready_of_course {c : Scene} (hpool : Shared c.model c.size s.pool)
    (h : Course c s.task s.pool s.files) (hresult : s.task.result? = none) :
    Ready c.model c.size s :=
  ⟨hpool, fun _ => h.mem_posted hresult⟩

/-- In a run in which nobody is passed over for ever the task ends, if it can be helped on as
long as it is not over. -/
theorem Run.exists_result_of_ready {start : Site} (r : Run model start) (hfair : r.Fair)
    (hsize : 0 < size) (hmodel : ∀ b o, model b o ≠ .panicked .lethal)
    (hready : ∀ n, (r.site n).task.result? = none → Ready model size (r.site n)) :
    ∃ n res, (r.site n).task.result? = some res := by
  have hnone : ∀ n, (¬ ∃ res, (r.site n).task.result? = some res) →
      (r.site n).task.result? = none := fun n hnot =>
    Option.eq_none_iff_forall_ne_some.mpr (not_exists.mp hnot)
  refine exists_of_helps (fun n => (r.site n).rank) (fun n => (r.site n).Helps)
    (fun n actor => ∃ m, r.move n = some m ∧ m.actor? = some actor) ?_ ?_ ?_
  · intro n hnot
    exact (hready n (hnone n hnot)).exists_helps hsize hmodel (hnone n hnot)
  · intro n actor hnot _ hhelps hlow
    cases hmove : r.move n with
    | none =>
      rw [r.rest n hmove]
      exact ⟨rfl, hhelps, fun ⟨m, hm, _⟩ => by cases hm⟩
    | some m =>
      obtain ⟨hsame, hstays, hother⟩ :=
        ((hready n (hnone n hnot)).helps_step hsize hhelps (r.next n m hmove).2).resolve_left hlow
      refine ⟨hsame, hstays, fun ⟨m', hm', hactor⟩ => ?_⟩
      cases hm'
      exact hother hactor
  · intro n actor hstays
    obtain ⟨k, m, hk, hmove, hactor⟩ := hfair actor n fun k hk =>
      (hready k (hnone k (hstays k hk).1)).canAct (hstays k hk).2
    exact ⟨k, hk, m, hmove, hactor⟩

theorem Run.exists_result {c : Scene} (r : Run c.model c.start) (hfair : r.Fair)
    (hmodel : ∀ b o, c.model b o ≠ .panicked .lethal) :
    ∃ n res, (r.site n).task.result? = some res := by
  apply r.exists_result_of_ready hfair c.size_pos hmodel
  intro n hresult
  obtain ⟨hpool, hcourse⟩ := (r.reachable n).course
  exact ready_of_course hpool hcourse hresult

end Site

end DecodingDesk.Document

import DecodingDesk.Proofs.Pool.Delay
import DecodingDesk.Proofs.Service.Isolation
import DecodingDesk.Proofs.Service.Visits
/-!
# Runs of a service

An endless run of a service is fair if nobody is passed over for ever who goes on with a
call, a task or a job.  What a call is for stays the same all along a run, and actions that are
possible in turn are the beginning of a run that comes to rest.
-/

namespace DecodingDesk.Service

variable {s s' : Service} {a : Action} {i : Nat}

/-! ## What becomes of calls -/

theorem getElem?_setCall {j : Nat} {y : Call} (hy : s.calls[j]? = some y) (stage : CallStage)
    (k : Nat) :
    (s.setCall j stage).calls[k]? = if j = k then some { y with stage } else s.calls[k]? := by
  rw [calls_setCall hy]
  split
  · rename_i hsame
    subst hsame
    exact List.getElem?_set_self (List.getElem?_eq_some_iff.mp hy).1
  · exact List.getElem?_set_ne ‹_›

/-- A call keeps what it is for. -/
theorem Step.exists_call (hstep : Step s a s') {k : Nat} {x : Call} (hx : s.calls[k]? = some x) :
    ∃ x', s'.calls[k]? = some x' ∧ x'.spec = x.spec := by
  have hset : ∀ {j : Nat} {y : Call} (stage : CallStage), s.calls[j]? = some y →
      ∃ x', (s.setCall j stage).calls[k]? = some x' ∧ x'.spec = x.spec := by
    intro j y stage hy
    rw [getElem?_setCall hy]
    split
    · rename_i hsame
      subst hsame
      rw [hx] at hy
      cases hy
      exact ⟨_, rfl, rfl⟩
    · exact ⟨x, hx, rfl⟩
  cases hstep with
  | call spec _ =>
    exact ⟨x, List.getElem?_append_left (List.getElem?_eq_some_iff.mp hx).1 ▸ hx, rfl⟩
  | refuse hcall | post hcall | begin hcall | enter hcall | collect hcall | join hcall
  | giveUp hcall | forget hcall => exact hset _ hcall
  | _ => exact ⟨x, hx, rfl⟩

/-- A call is new, or it was there and has been given up by now only if it is given up. -/
theorem Step.call_cases (hstep : Step s a s') {k : Nat} {x' : Call}
    (hx' : s'.calls[k]? = some x') :
    (∃ spec, a = .call spec ∧ x' = { spec }) ∨
      ∃ x, s.calls[k]? = some x ∧ x.spec = x'.spec ∧
        (x'.stage = .abandoned → x.stage = .abandoned ∨ a = .abandon k) := by
  have hset : ∀ {j : Nat} {y : Call} {stage : CallStage}, s.calls[j]? = some y →
      (s.setCall j stage).calls[k]? = some x' → (stage = .abandoned → a = .abandon j) →
        ∃ x, s.calls[k]? = some x ∧ x.spec = x'.spec ∧
          (x'.stage = .abandoned → x.stage = .abandoned ∨ a = .abandon k) := by
    intro j y stage hy hk habandon
    rw [getElem?_setCall hy] at hk
    split at hk
    · rename_i hsame
      subst hsame
      cases hk
      exact ⟨y, hy, rfl, fun hstage => .inr (habandon hstage)⟩
    · exact ⟨x', hk, rfl, .inl⟩
  cases hstep with
  | call spec _ =>
    rw [List.getElem?_append] at hx'
    split at hx'
    · exact .inr ⟨x', hx', rfl, .inl⟩
    · obtain rfl := List.mem_singleton.mp (List.mem_of_getElem? hx')
      exact .inl ⟨spec, rfl, rfl⟩
  | refuse hcall | post hcall | begin hcall | enter hcall | collect hcall | join hcall =>
    exact .inr (hset hcall hx' nofun)
  | giveUp hcall | forget hcall => exact .inr (hset hcall hx' fun _ => rfl)
  | _ => exact .inr ⟨x', hx', rfl, .inl⟩

/-- No other call is for a document. -/
def OnlyDocument (i : Nat) (s : Service) : Prop :=
  ∀ k x, s.calls[k]? = some x → x.spec.isDocument = true → k = i

/-- Whether an action neither gives up a call nor makes one for a document. -/
def Action.spares (i : Nat) : Action → Bool
  | .call spec => !spec.isDocument
  | .abandon k => k != i
  | _ => true

theorem OnlyDocument.step (h : s.OnlyDocument i) (hspares : a.spares i = true)
    (hstep : Step s a s') : s'.OnlyDocument i := by
  intro k x' hx' hdocument
  obtain ⟨spec, rfl, rfl⟩ | ⟨x, hx, hspec, -⟩ := hstep.call_cases hx'
  · simp [Action.spares, hdocument] at hspares
  · exact h k x hx (hspec ▸ hdocument)

/-- A call is given up only by giving it up. -/
theorem Step.ne_abandoned (hstep : Step s a s') (hspares : a.spares i = true)
    (h : ∀ x, s.calls[i]? = some x → x.stage ≠ .abandoned) {x' : Call}
    (hx' : s'.calls[i]? = some x') : x'.stage ≠ .abandoned := by
  intro hstage
  obtain ⟨spec, rfl, rfl⟩ | ⟨x, hx, -, habandoned⟩ := hstep.call_cases hx'
  · cases hstage
  · rcases habandoned hstage with hbefore | rfl
    · exact h x hx hbefore
    · simp [Action.spares] at hspares

/-! ## Who can act -/

inductive Actor where
  | caller (i : Nat)
  | task (j : Nat)
  | pool (actor : Pool.Actor)

/-- Whose action it is that goes on with a call, a task or a job. -/
def Action.actor? : Action → Option Actor
  | .poll i => some (.caller i)
  | .work j => some (.task j)
  | a => (a.pool?.bind Pool.Action.actor?).map .pool

def CanAct (s : Service) (actor : Actor) : Prop :=
  ∃ a s', a.actor? = some actor ∧ s.Follows a ∧ s.step? a = some s'

theorem actor?_of_pool? {act : Pool.Action} (hact : a.pool? = some act) :
    a.actor? = act.actor?.map .pool := by
  cases a <;> cases hact <;> rfl

/-! ## Fair runs -/

/-- An endless run of a service; at some moments nothing may happen. -/
structure Run (start : Service) where
  service : ℕ → Service
  action : ℕ → Option Action
  first : service 0 = start
  rest : ∀ n, action n = none → service (n + 1) = service n
  next : ∀ n a, action n = some a →
    (service n).Follows a ∧ (service n).step? a = some (service (n + 1))

namespace Run

variable {start : Service}

/-- Whoever can act from some time on, acts. -/
def Fair (r : Run start) : Prop :=
  ∀ actor n, (∀ k, n ≤ k → (r.service k).CanAct actor) →
    ∃ k a, n ≤ k ∧ r.action k = some a ∧ a.actor? = some actor

/-- What every action of a run preserves holds all along. -/
theorem induct (r : Run start) {P : Service → Prop} (hstart : P start)
    (hnext : ∀ n a, r.action n = some a → P (r.service n) → (r.service n).Follows a →
      (r.service n).step? a = some (r.service (n + 1)) → P (r.service (n + 1))) (n : ℕ) :
    P (r.service n) := by
  induction n with
  | zero =>
    rw [r.first]
    exact hstart
  | succ n ih =>
    cases haction : r.action n with
    | none =>
      rw [r.rest n haction]
      exact ih
    | some a =>
      obtain ⟨hfollows, hstep⟩ := r.next n a haction
      exact hnext n a haction ih hfollows hstep

theorem exists_call (r : Run start) {x : Call} (hx : start.calls[i]? = some x) (n : ℕ) :
    ∃ x', (r.service n).calls[i]? = some x' ∧ x'.spec = x.spec := by
  refine r.induct (P := fun s => ∃ x', s.calls[i]? = some x' ∧ x'.spec = x.spec) ⟨x, hx, rfl⟩ ?_ n
  rintro n a - ⟨x', hx', hspec⟩ - hstep
  obtain ⟨x'', hx'', hspec'⟩ := (step_of_step? hstep).exists_call hx'
  exact ⟨x'', hx'', hspec'.trans hspec⟩

theorem model_eq (r : Run start) (n : ℕ) : (r.service n).model = start.model :=
  r.induct (P := fun s => s.model = start.model) rfl
    (fun _ _ _ hs _ hstep => (step_of_step? hstep).model_eq.trans hs) n

theorem reachable (r : Run start) {loader : Model.Loader} {files : Files} {settings : Settings}
    (h : Reachable loader files settings Follows start) (n : ℕ) :
    Reachable loader files settings Follows (r.service n) :=
  r.induct h (fun _ a _ hreach hfollows hstep => hreach.step a hfollows hstep) n

/-- Whether a run neither gives up a call nor makes another one for a document. -/
def Spares (r : Run start) (i : Nat) : Prop :=
  ∀ n a, r.action n = some a → a.spares i = true

theorem onlyDocument (r : Run start) (hspares : r.Spares i) (h : start.OnlyDocument i) (n : ℕ) :
    (r.service n).OnlyDocument i :=
  r.induct h (fun n a haction hs _ hstep => hs.step (hspares n a haction) (step_of_step? hstep)) n

theorem ne_abandoned (r : Run start) (hspares : r.Spares i) {x : Call}
    (hx : start.calls[i]? = some x) (hstage : x.stage ≠ .abandoned) (n : ℕ) :
    ∀ x', (r.service n).calls[i]? = some x' → x'.stage ≠ .abandoned := by
  refine r.induct (P := fun s => ∀ x', s.calls[i]? = some x' → x'.stage ≠ .abandoned) ?_ ?_ n
  · intro x' hx'
    rw [hx] at hx'
    cases hx'
    exact hstage
  · intro n a haction hs _ hstep x' hx'
    exact (step_of_step? hstep).ne_abandoned (hspares n a haction) hs hx'

/-! ## Runs that come to rest -/

/-- The run in which nothing happens. -/
def still (s : Service) : Run s where
  service _ := s
  action _ := none
  first := rfl
  rest _ _ := rfl
  next _ _ h := by cases h

/-- A run after one more action. -/
def cons (a : Action) (hfollows : s.Follows a) (hstep : s.step? a = some s') (r : Run s') :
    Run s where
  service
    | 0 => s
    | n + 1 => r.service n
  action
    | 0 => some a
    | n + 1 => r.action n
  first := rfl
  rest n hn := by
    cases n with
    | zero => cases hn
    | succ n => exact r.rest n hn
  next n b hb := by
    cases n with
    | zero =>
      cases hb
      exact ⟨hfollows, hstep.trans (congrArg some r.first.symm)⟩
    | succ n => exact r.next n b hb

/-- Actions that are possible in turn are the beginning of a run that rests after them. -/
theorem exists_of_leads {actions : List Action} (h : Leads Follows s actions s') :
    ∃ r : Run s, (∀ n, r.action n = actions[n]?) ∧
      ∀ n, actions.length ≤ n → r.service n = s' := by
  induction actions generalizing s with
  | nil =>
    cases h
    exact ⟨still s', fun _ => rfl, fun _ _ => rfl⟩
  | cons a actions ih =>
    obtain ⟨hfollows, next, hstep, hrest⟩ := h
    obtain ⟨r, haction, hservice⟩ := ih hrest
    refine ⟨r.cons a hfollows hstep, fun n => ?_, fun n hn => ?_⟩
    · cases n with
      | zero => rfl
      | succ n => exact haction n
    · cases n with
      | zero => cases hn
      | succ n => exact hservice n (Nat.le_of_succ_le_succ hn)

/-- A run that rests where nobody can act is fair. -/
theorem fair_of_rest (r : Run s) {m : ℕ} (hrest : ∀ n, m ≤ n → r.service n = s')
    (hstuck : ∀ actor, ¬ s'.CanAct actor) : r.Fair := by
  intro actor n hcan
  have hlast := hcan (n + m) (Nat.le_add_right _ _)
  rw [hrest _ (Nat.le_add_left _ _)] at hlast
  exact absurd hlast (hstuck actor)

end Run

/-- Nobody can act when all calls and tasks are over, everybody sleeps and nobody is owed a
notification. -/
theorem not_canAct (hcalls : ∀ x ∈ s.calls, x.isActive = false)
    (htasks : ∀ t ∈ s.tasks, t.isInside = false) (howed : s.pool.unnotified = 0)
    (hasleep : ∀ w ∈ s.pool.workers, w = .asleep) (actor : Actor) : ¬ s.CanAct actor := by
  rintro ⟨a, s', hactor, -, hstep⟩
  have hcall : ∀ {k : Nat} {x : Call}, s.calls[k]? = some x → x.isActive = false :=
    fun hx => hcalls _ (List.mem_of_getElem? hx)
  have htask : ∀ {j : Nat} {t : TaskStage}, s.tasks[j]? = some t → t.isInside = false :=
    fun ht => htasks _ (List.mem_of_getElem? ht)
  cases step_of_step? hstep with
  | refuse hx | post hx | begin hx | enter hx | collect hx | join hx => cases hcall hx
  | work ht | letGo ht | taskClose ht | taskWait ht | taskLeave ht => cases htask ht
  | worker hact hpool =>
    rw [actor?_of_pool? hact, hpool.actor?_eq_none howed fun w hw => .inl (hasleep w hw)] at hactor
    cases hactor
  | _ => cases hactor

end DecodingDesk.Service

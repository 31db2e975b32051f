import DecodingDesk.Proofs.Pool.Closing
import DecodingDesk.Proofs.Service.Ownership
/-!
# From calls to jobs and back

A call for a batch keeps the number of its job, and the job keeps the batch and the
options of the call.  So whatever a model comes to, and however calls come between, a call
that has returned has what a worker made of its own job.
-/

namespace DecodingDesk.Service

variable {size : Nat} {s s' : Service} {a : Action}

/-- The job of a call for a batch. -/
structure Carries (p : Pool) (tokens : Option Batch) (params : DecodingParams) (job : Job) :
    Prop where
  posted : job ∈ p.posted
  valid : Options.validate params = .ok job.options
  batch : job.batch = Batch.ofOption tokens
  ne_nil : Batch.ofOption tokens ≠ []

/-- How a call for a batch stands to the job that it has posted, if it has. -/
inductive Traced (p : Pool) (tokens : Option Batch) (params : DecodingParams) :
    Option Job → CallStage → Prop where
  | created : Traced p tokens params none .created
  | entering {job : Job} (hjob : Carries p tokens params job) :
      Traced p tokens params (some job) (.entering job.id)
  | waiting {job : Job} (hjob : Carries p tokens params job) :
      Traced p tokens params (some job) (.waiting job.id)
  | refused {r : CallReply} (hr : (CallSpec.batch tokens params).immediate? = some r) :
      Traced p tokens params none (.returned r)
  | replied {job : Job} {reply : Pool.Reply} (hjob : Carries p tokens params job)
      (hreply : p.Replied job reply) :
      Traced p tokens params (some job) (.returned (batchReply reply))
  | abandoned (job? : Option Job) : Traced p tokens params job? .abandoned

theorem Held.mem_posted (h : Held size s) (hstep : Step s a s') {job : Job}
    (hjob : job ∈ s.pool.posted) : job ∈ s'.pool.posted := by
  rcases h.pool_step hstep with hsame | ⟨act, hpool, -⟩
  · rw [hsame]
    exact hjob
  · exact hpool.mem_posted hjob

theorem Held.replied (h : Held size s) (hstep : Step s a s') {job : Job} {reply : Pool.Reply}
    (hreply : s.pool.Replied job reply) : s'.pool.Replied job reply := by
  rcases h.pool_step hstep with hsame | ⟨act, hpool, -⟩
  · rw [hsame]
    exact hreply
  · exact hreply.step hpool

theorem Traced.step {tokens : Option Batch} {params : DecodingParams} {job? : Option Job}
    {stage : CallStage} (h : Traced s.pool tokens params job? stage) (hheld : Held size s)
    (hstep : Step s a s') : Traced s'.pool tokens params job? stage := by
  have hcarries : ∀ {job : Job}, Carries s.pool tokens params job →
      Carries s'.pool tokens params job :=
    fun hjob => ⟨hheld.mem_posted hstep hjob.posted, hjob.valid, hjob.batch, hjob.ne_nil⟩
  cases h with
  | created => exact .created
  | entering hjob => exact .entering (hcarries hjob)
  | waiting hjob => exact .waiting (hcarries hjob)
  | refused hr => exact .refused hr
  | replied hjob hreply => exact .replied (hcarries hjob) (hheld.replied hstep hreply)
  | abandoned => exact .abandoned _

/-- The jobs of the calls for batches.  No two calls have the same. -/
structure Routes (s : Service) (jobs : Nat → Option Job) : Prop where
  posted : ∀ i job, jobs i = some job → job ∈ s.pool.posted
  inj : ∀ i k job, jobs i = some job → jobs k = some job → i = k
  beyond : ∀ i, s.calls.length ≤ i → jobs i = none
  traced : ∀ i c, s.calls[i]? = some c → ∀ tokens params, c.spec = .batch tokens params →
    Traced s.pool tokens params (jobs i) c.stage

variable {jobs : Nat → Option Job}

/-- A step that leaves the calls as they are. -/
theorem Routes.of_calls (h : Routes s jobs) (hheld : Held size s) (hstep : Step s a s')
    (hcalls : s'.calls = s.calls) : Routes s' jobs where
  posted i job hjob := hheld.mem_posted hstep (h.posted i job hjob)
  inj := h.inj
  beyond := by
    rw [hcalls]
    exact h.beyond
  traced i c hc tokens params hspec := by
    rw [hcalls] at hc
    exact (h.traced i c hc tokens params hspec).step hheld hstep

/-- A step that looks at one of the calls. -/
theorem Routes.of_setCall (h : Routes s jobs) (hheld : Held size s) (hstep : Step s a s')
    {i : Nat} {spec : CallSpec} {stage stage' : CallStage}
    (hcall : s.calls[i]? = some { spec, stage }) (hcalls : s'.calls = (s.setCall i stage').calls)
    (hnew : ∀ tokens params, spec = .batch tokens params →
      Traced s.pool tokens params (jobs i) stage → Traced s'.pool tokens params (jobs i) stage') :
    Routes s' jobs := by
  rw [calls_setCall hcall] at hcalls
  refine ⟨fun k job hjob => hheld.mem_posted hstep (h.posted k job hjob), h.inj, ?_, ?_⟩
  · rw [hcalls, List.length_set]
    exact h.beyond
  · intro k c hc tokens params hspec
    rw [hcalls] at hc
    by_cases hsame : i = k
    · subst hsame
      rw [List.getElem?_set_self (List.getElem?_eq_some_iff.mp hcall).1] at hc
      cases hc
      exact hnew tokens params hspec (h.traced i _ hcall tokens params hspec)
    · rw [List.getElem?_set_ne hsame] at hc
      exact (h.traced k c hc tokens params hspec).step hheld hstep

/-- The job of a call that posts it is a new one. -/
theorem Routes.post (h : Routes s jobs) (hheld : Held size s) {i : Nat} {tokens : Option Batch}
    {params : DecodingParams} {options : Options}
    (hcall : s.calls[i]? = some { spec := .batch tokens params, stage := .created })
    (hvalid : Options.validate params = .ok options) (hne : Batch.ofOption tokens ≠ []) :
    ∃ jobs', Routes ({ s with pool := s.pool.post (Batch.ofOption tokens) options }.setCall i
      (.entering s.pool.posted.length)) jobs' := by
  let job : Job := ⟨s.pool.posted.length, Batch.ofOption tokens, options⟩
  have hstep := Step.post hcall hvalid hne
  have hnew : job ∉ s.pool.posted := by
    intro hmem
    have hlt := (List.getElem?_eq_some_iff.mp (hheld.pool.tallied.getElem?_posted hmem)).1
    exact Nat.lt_irrefl _ hlt
  have hcarries : Carries (s.pool.post (Batch.ofOption tokens) options) tokens params job :=
    ⟨List.mem_append_right _ List.mem_cons_self, hvalid, rfl, hne⟩
  have hlt := (List.getElem?_eq_some_iff.mp hcall).1
  have hcalls : ({ s with pool := s.pool.post (Batch.ofOption tokens) options }.setCall i
      (.entering job.id)).calls =
        s.calls.set i { spec := .batch tokens params, stage := .entering job.id } :=
    calls_setCall hcall _
  refine ⟨fun k => if k = i then some job else jobs k, ?_, ?_, ?_, ?_⟩
  · intro k other hother
    split at hother
    · cases hother
      exact hcarries.posted
    · exact hheld.mem_posted hstep (h.posted k other hother)
  · intro k l other hk hl
    split at hk <;> split at hl
    · exact ‹k = i›.trans ‹l = i›.symm
    · cases hk
      exact absurd (h.posted l job hl) hnew
    · cases hl
      exact absurd (h.posted k job hk) hnew
    · exact h.inj k l other hk hl
  · intro k hk
    rw [hcalls, List.length_set] at hk
    rw [if_neg (Nat.ne_of_gt (Nat.lt_of_lt_of_le hlt hk))]
    exact h.beyond k hk
  · intro k c hc tokens' params' hspec
    rw [hcalls] at hc
    by_cases hsame : i = k
    · subst hsame
      rw [List.getElem?_set_self hlt] at hc
      cases hc
      cases hspec
      rw [if_pos rfl]
      exact .entering hcarries
    · rw [List.getElem?_set_ne hsame] at hc
      rw [if_neg (Ne.symm hsame)]
      exact (h.traced k c hc tokens' params' hspec).step hheld hstep

theorem Routes.step (h : Routes s jobs) (hheld : Held size s) (hstep : Step s a s') :
    ∃ jobs', Routes s' jobs' := by
  have hstep' := hstep
  cases hstep with
  | call spec hserving =>
    refine ⟨jobs, h.posted, h.inj, fun i hi => h.beyond i ?_, ?_⟩
    · exact Nat.le_of_succ_le (by simpa using hi)
    · intro i c hc tokens params hspec
      rcases Nat.lt_or_ge i s.calls.length with hlt | hge
      · rw [List.getElem?_append_left hlt] at hc
        exact h.traced i c hc tokens params hspec
      · rw [h.beyond i hge]
        rw [List.getElem?_append_right hge] at hc
        obtain rfl := List.mem_singleton.mp (List.mem_of_getElem? hc)
        exact .created
  | post hcall hvalid hne => exact h.post hheld hcall hvalid hne
  | refuse hcall hr =>
    refine ⟨jobs, h.of_setCall hheld (.refuse hcall hr) hcall rfl ?_⟩
    intro tokens params hspec htraced
    subst hspec
    generalize jobs _ = job? at htraced ⊢
    cases htraced
    exact .refused hr
  | begin hcall hvalid hne =>
    refine ⟨jobs, h.of_setCall hheld (.begin hcall hvalid hne) hcall rfl ?_⟩
    rintro tokens params ⟨⟩
  | enter hcall =>
    refine ⟨jobs, h.of_setCall hheld (.enter hcall) hcall rfl ?_⟩
    intro tokens params hspec htraced
    generalize jobs _ = job? at htraced ⊢
    cases htraced with
    | entering hjob => exact .waiting hjob
  | collect hcall hfuture =>
    refine ⟨jobs, h.of_setCall hheld (.collect hcall hfuture) hcall rfl ?_⟩
    intro tokens params hspec htraced
    generalize jobs _ = job? at htraced ⊢
    cases htraced with
    | waiting hjob =>
      have hphase : s.pool.phase ≠ .joined := by
        rw [hheld.phase_of_call hcall rfl]
        simp
      exact .replied hjob (hheld.pool.tallied.replied hphase hjob.posted hfuture)
  | join hcall htask =>
    refine ⟨jobs, h.of_setCall hheld (.join hcall htask) hcall rfl ?_⟩
    intro tokens params hspec htraced
    generalize jobs _ = job? at htraced ⊢
    cases htraced
  | giveUp hcall hstage =>
    exact ⟨jobs, h.of_setCall hheld (.giveUp hcall hstage) hcall rfl fun _ _ _ _ => .abandoned _⟩
  | forget hcall hpool =>
    exact ⟨jobs, h.of_setCall hheld (.forget hcall hpool) hcall rfl fun _ _ _ _ => .abandoned _⟩
  | _ => exact ⟨jobs, h.of_calls hheld hstep' rfl⟩

theorem Reachable.routes {loader : Model.Loader} {files : Files} {settings : Settings}
    {Allows : Service → Action → Prop} (h : Reachable loader files settings Allows s) :
    ∃ jobs, Routes s jobs := by
  induction h with
  | start hcreate =>
    obtain ⟨-, -, hcalls, -⟩ := create_spec hcreate
    refine ⟨fun _ => none, nofun, nofun, fun _ _ => rfl, fun i c hc => ?_⟩
    rw [hcalls] at hc
    cases hc
  | step a hreach _ hstep ih =>
    obtain ⟨jobs, hjobs⟩ := ih
    exact hjobs.step hreach.held (step_of_step? hstep)

end DecodingDesk.Service

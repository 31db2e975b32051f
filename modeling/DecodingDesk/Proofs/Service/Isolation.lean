import DecodingDesk.Proofs.Result
import DecodingDesk.Proofs.Service.Routing
import DecodingDesk.Service.Alone
/-!
# Calls do not disturb each other

A call for a batch keeps the number of its job, and the job keeps the batch and the
options of the call.  So whatever other calls do, and however workers come between,
what the call returns is what it would return by itself.
-/

namespace DecodingDesk.Service

open Model (Output)

variable {size : Nat} {s s' : Service} {a : Action}

/-! ## What a call for a batch has to return -/

/-- What the caller of a batch gets from a model: an error for parameters that are not
valid, nothing for an empty batch, and for any other batch the error of its job or one
result for each item, from the model's output for that item. -/
inductive Served (model : Model) (tokens : Option Batch) (params : DecodingParams) :
    CallReply → Prop where
  | invalid {e : OptionsError} (hinvalid : Options.validate params = .error e) :
      Served model tokens params (.error (.error (.options e)))
  | empty {options : Options} (hvalid : Options.validate params = .ok options)
      (hempty : Batch.ofOption tokens = []) : Served model tokens params (.ok (.results {}))
  | failed {options : Options} {e : EngineError} (hvalid : Options.validate params = .ok options)
      (hne : Batch.ofOption tokens ≠ [])
      (halone : Pool.answerAlone model options (Batch.ofOption tokens) = .error e) :
      Served model tokens params (.error (.error (.engine e)))
  | answered {options : Options} {os : List Output} {results : List ItemResult}
      (hvalid : Options.validate params = .ok options) (hne : Batch.ofOption tokens ≠ [])
      (houtputs : model (Batch.ofOption tokens) options = .outputs os)
      (hlength : results.length = (Batch.ofOption tokens).length)
      (hmatches : BatchResult.Matches results os) :
      Served model tokens params (.ok (.results ⟨results⟩))

theorem alone_of_batch {model : Model} {tokens : Option Batch} {params : DecodingParams}
    {options : Options} (hvalid : Options.validate params = .ok options)
    (hne : Batch.ofOption tokens ≠ []) :
    alone model tokens params =
      batchReply (Pool.answerAlone model options (Batch.ofOption tokens)) := by
  unfold alone
  rw [hvalid]
  cases hbatch : Batch.ofOption tokens with
  | nil => exact absurd hbatch hne
  | cons item rest => rfl

theorem served_alone (model : Model) (tokens : Option Batch) (params : DecodingParams) :
    Served model tokens params (alone model tokens params) := by
  cases hvalid : Options.validate params with
  | error e =>
    rw [alone, hvalid]
    exact .invalid hvalid
  | ok options =>
    by_cases hempty : Batch.ofOption tokens = []
    · rw [alone, hvalid]
      simp only [hempty]
      exact .empty hvalid hempty
    · rw [alone_of_batch hvalid hempty]
      cases halone : Pool.answerAlone model options (Batch.ofOption tokens) with
      | error e => exact .failed hvalid hempty halone
      | ok os =>
        obtain ⟨houtputs, hlength, hconform⟩ := Pool.outputs_of_answerAlone halone
        obtain ⟨results, hresults, hmatches⟩ := BatchResult.exists_ofOutputs hconform
        rw [batchReply, hresults]
        exact .answered hvalid hempty houtputs (hmatches.length_eq.trans hlength) hmatches

theorem alone_of_immediate? {model : Model} {tokens : Option Batch} {params : DecodingParams}
    {r : CallReply} (h : (CallSpec.batch tokens params).immediate? = some r) :
    r = alone model tokens params := by
  cases hvalid : Options.validate params with
  | error e =>
    simp only [CallSpec.immediate?, hvalid] at h
    cases h
    simp only [alone, hvalid]
  | ok options =>
    simp only [CallSpec.immediate?, hvalid] at h
    by_cases hempty : Batch.ofOption tokens = []
    · rw [if_pos (List.isEmpty_iff.mpr hempty)] at h
      cases h
      simp only [alone, hvalid, hempty]
    · rw [if_neg (mt List.isEmpty_iff.mp hempty)] at h
      cases h

/-! ## Calls and their jobs -/

/-- How a call for a batch stands to the jobs of the pool. -/
inductive Routed (model : Model) (p : Pool) (tokens : Option Batch) (params : DecodingParams) :
    CallStage → Prop where
  | created : Routed model p tokens params .created
  | entering {job : Job} (hposted : job ∈ p.posted)
      (hvalid : Options.validate params = .ok job.options)
      (hbatch : job.batch = Batch.ofOption tokens) (hne : Batch.ofOption tokens ≠ []) :
      Routed model p tokens params (.entering job.id)
  | waiting {job : Job} (hposted : job ∈ p.posted)
      (hvalid : Options.validate params = .ok job.options)
      (hbatch : job.batch = Batch.ofOption tokens) (hne : Batch.ofOption tokens ≠ []) :
      Routed model p tokens params (.waiting job.id)
  | returned : Routed model p tokens params (.returned (alone model tokens params))
  | abandoned : Routed model p tokens params .abandoned

/-- In a pool that obeys its model, a call has what it would return by itself. -/
theorem Traced.routed {model : Model} {p : Pool} {tokens : Option Batch} {params : DecodingParams}
    {job? : Option Job} {stage : CallStage} (h : Traced p tokens params job? stage)
    (hobeys : Pool.Obeys model p) (htally : p.Tallied) : Routed model p tokens params stage := by
  cases h with
  | created => exact .created
  | entering hjob => exact .entering hjob.posted hjob.valid hjob.batch hjob.ne_nil
  | waiting hjob => exact .waiting hjob.posted hjob.valid hjob.batch hjob.ne_nil
  | refused hr =>
    rw [alone_of_immediate? hr]
    exact .returned
  | replied hjob hreply =>
    rw [hobeys.eq_of_replied htally hreply, hjob.batch, ← alone_of_batch hjob.valid hjob.ne_nil]
    exact .returned
  | abandoned => exact .abandoned

/-- The pool has made its calls to the model of the service, and every call for a batch keeps
to its own job. -/
structure Isolated (s : Service) : Prop where
  obeys : Pool.Obeys s.model s.pool
  routed : ∀ c ∈ s.calls, ∀ tokens params, c.spec = .batch tokens params →
    Routed s.model s.pool tokens params c.stage

theorem Step.model_eq (hstep : Step s a s') : s'.model = s.model := by
  cases hstep <;> rfl

/-- An action that the model allows is one that it allows in the pool. -/
theorem Follows.pool (hfollows : s.Follows a) {act : Pool.Action}
    (hact : a.pool? = some act ∨ ∀ i o, act ≠ .finish i o) : s.pool.Follows s.model act := by
  cases act with
  | finish i o =>
    rcases hact with hact | hact
    · cases a <;> cases hact
      exact hfollows
    · exact absurd rfl (hact i o)
  | _ => trivial

theorem obeys_step (h : Pool.Obeys s.model s.pool) (hheld : Held size s) (hfollows : s.Follows a)
    (hstep : Step s a s') : Pool.Obeys s'.model s'.pool := by
  rw [hstep.model_eq]
  rcases hheld.pool_step hstep with hsame | ⟨act, hpool, hact⟩
  · rw [hsame]
    exact h
  · exact h.step (hfollows.pool hact) hpool

variable {loader : Model.Loader} {files : Files} {settings : Settings}

theorem Reachable.obeys (h : Reachable loader files settings Follows s) :
    Pool.Obeys s.model s.pool := by
  induction h with
  | start hcreate =>
    rw [(create_spec hcreate).1]
    exact Pool.obeys_start _ _
  | step a hreach hfollows hstep ih =>
    exact obeys_step ih hreach.held hfollows (step_of_step? hstep)

theorem Reachable.isolated (h : Reachable loader files settings Follows s) : Isolated s := by
  obtain ⟨jobs, hroutes⟩ := h.routes
  refine ⟨h.obeys, fun c hc tokens params hspec => ?_⟩
  obtain ⟨i, hi⟩ := List.mem_iff_getElem?.mp hc
  exact (hroutes.traced i c hi tokens params hspec).routed h.obeys h.held.pool.tallied

/-- What a call for a batch returns is what it would return by itself, and the same in every
other service around the same model. -/
theorem Reachable.returned_eq_alone (h : Reachable loader files settings Follows s) {i : Nat}
    {tokens : Option Batch} {params : DecodingParams} {r : CallReply}
    (hcall : s.calls[i]? = some { spec := .batch tokens params, stage := .returned r }) :
    r = alone s.model tokens params ∧ Served s.model tokens params r ∧
      ∀ (loader' : Model.Loader) (files' : Files) (settings' : Settings) (s' : Service) (i' : Nat)
        (r' : CallReply), Reachable loader' files' settings' Follows s' → s'.model = s.model →
        s'.calls[i']? = some { spec := .batch tokens params, stage := .returned r' } → r' = r := by
  have halone : ∀ {loader : Model.Loader} {files : Files} {settings : Settings} {s : Service}
      {i : Nat} {r : CallReply}, Reachable loader files settings Follows s →
      s.calls[i]? = some { spec := .batch tokens params, stage := .returned r } →
      r = alone s.model tokens params := by
    intro loader files settings s i r h hcall
    cases h.isolated.routed _ (List.mem_of_getElem? hcall) tokens params rfl with
    | returned => rfl
  have hr := halone h hcall
  refine ⟨hr, ?_, ?_⟩
  · rw [hr]
    exact served_alone s.model tokens params
  · intro loader' files' settings' s' i' r' h' hmodel hcall'
    rw [halone h' hcall', hmodel, hr]

/-- A service with two workers around the echo model. -/
def echoSettings : Settings where
  modelPath := "m"
  device := "cpu"
  deviceIndex := 0
  poolSize := 2

def echoService : Service where
  model := Model.Echo.model {}
  device := .cpu
  deviceIndex := 0
  pool := Pool.start 2
  files := Files.empty

/-- Two calls whose jobs run at the same time.  The second is given up before it is answered,
and its job is done first. -/
def twoCalls : List Action :=
  [.call (.batch (some [["a"]]) {}), .call (.batch (some [["b", "c"]]) {}), .poll 0, .poll 1,
    .poll 0, .poll 1, .notifyWorker none, .look 0, .look 1, .abandon 1,
    .finish 1 (Model.Echo.model {} [["b", "c"]] .default),
    .finish 0 (Model.Echo.model {} [["a"]] .default), .poll 0]

theorem returned_eq_alone_twoCalls : ∃ s r,
    Reachable (fun _ => .ok (Model.Echo.model {})) Files.empty echoSettings Follows s ∧
      s.calls[0]? = some { spec := .batch (some [["a"]]) {}, stage := .returned r } ∧
      r = alone (Model.Echo.model {}) (some [["a"]]) {} := by
  have hstart : Reachable (fun _ => .ok (Model.Echo.model {})) Files.empty echoSettings Follows
      echoService := .start rfl
  obtain ⟨s, hleads, r, hcall, hmodel⟩ : ∃ s, Leads Follows echoService twoCalls s ∧ ∃ r,
      s.calls[0]? = some { spec := .batch (some [["a"]]) {}, stage := .returned r } ∧
        s.model = Model.Echo.model {} := by
    apply Exists.intro
    constructor
    · iterate 10 refine ⟨trivial, _, rfl, ?_⟩
      refine ⟨by rintro job ⟨⟩; rfl, _, rfl, ?_⟩
      refine ⟨by rintro job ⟨⟩; rfl, _, rfl, ?_⟩
      refine ⟨trivial, _, rfl, ?_⟩
      exact rfl
    · exact ⟨_, rfl, rfl⟩
  have hs := hstart.leads hleads
  refine ⟨s, r, hs, hcall, ?_⟩
  rw [← hmodel]
  exact (hs.returned_eq_alone hcall).1

end DecodingDesk.Service

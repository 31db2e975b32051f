import DecodingDesk.Proofs.Pool.Contract
import DecodingDesk.Proofs.Service.Isolation
/-!
# What callers are handed

A result is built without a look at the contract: it takes scores and matrices as they
come and is at a fault if there are too few.  That never happens, because answers that
break the contract do not get past the worker.  Nothing is assumed of the model here, not
even that it comes to the same for the same batch.
-/

namespace DecodingDesk.Service

open Model (Output)

variable {s : Service}

/-- What a call for a batch may return: without a job an error for parameters that are not
valid or nothing for an empty batch, and for its job the error of that or one result for
each item, which holds what the model answered for it in the call for that job. -/
inductive Handed (p : Pool) (tokens : Option Batch) (params : DecodingParams) :
    Option Job → CallReply → Prop where
  | invalid {e : OptionsError} (hinvalid : Options.validate params = .error e) :
      Handed p tokens params none (.error (.error (.options e)))
  | empty {options : Options} (hvalid : Options.validate params = .ok options)
      (hempty : Batch.ofOption tokens = []) : Handed p tokens params none (.ok (.results {}))
  | failed {job : Job} {e : EngineError} (hjob : Carries p tokens params job)
      (hreply : p.Replied job (.error e)) :
      Handed p tokens params (some job) (.error (.error (.engine e)))
  | answered {x : Pool.Answer} {os : List Output} {b : BatchResult}
      (hx : x ∈ p.answers) (hjob : Carries p tokens params x.job)
      (houtcome : x.outcome = .outputs os)
      (hlength : b.results.length = (Batch.ofOption tokens).length)
      (hmirrors : b.Mirrors params.numHypotheses.toNat os) :
      Handed p tokens params (some x.job) (.ok (.results b))

theorem handed_of_immediate? {p : Pool} {tokens : Option Batch} {params : DecodingParams}
    {r : CallReply} (h : (CallSpec.batch tokens params).immediate? = some r) :
    Handed p tokens params none r := by
  unfold CallSpec.immediate? at h
  cases hvalid : Options.validate params with
  | error e =>
    simp only [hvalid] at h
    cases h
    exact .invalid hvalid
  | ok options =>
    simp only [hvalid] at h
    split at h
    · cases h
      exact .empty hvalid (List.isEmpty_iff.mp ‹_›)
    · cases h

theorem handed_of_replied {p : Pool} (htally : p.Tallied) {tokens : Option Batch}
    {params : DecodingParams} {job : Job} {reply : Pool.Reply}
    (hjob : Carries p tokens params job) (hreply : p.Replied job reply) :
    Handed p tokens params (some job) (batchReply reply) := by
  cases reply with
  | error e => exact .failed hjob hreply
  | ok os =>
    obtain ⟨x, hx, rfl, houtcome, hlength, hconform⟩ := htally.of_replied_ok hreply
    rw [Options.params_of_validate hjob.valid] at hconform
    obtain ⟨b, hb, hmirrors⟩ := BatchResult.exists_mirrors hconform
    rw [batchReply, hb]
    refine .answered hx hjob houtcome ?_ hmirrors
    rw [List.Forall₂.length_eq hmirrors, hlength, hjob.batch]

theorem Handed.ne_fault {p : Pool} {tokens : Option Batch} {params : DecodingParams}
    {job? : Option Job} {r : CallReply} (h : Handed p tokens params job? r) (f : Fault) :
    r ≠ .error (.fault f) := by
  cases h <;> simp

variable {loader : Model.Loader} {files : Files} {settings : Settings}
  {Allows : Service → Action → Prop}

/-- Workers pass on exactly the answers that keep to the contract, and say of others what is
wrong first.  So a result can be built from whatever reaches a caller, and what a call for
a batch returns holds what the model answered for its items in the call for its own job. -/
theorem Reachable.contract_barrier (h : Reachable loader files settings Allows s) :
    (∀ job, Pool.Barrier job) ∧
      (∀ job ∈ s.pool.posted, ∀ os, s.pool.future? job.id = some (.ok os) →
        ∃ b, BatchResult.ofOutputs os = .ok b ∧ b.results.length = job.batch.length ∧
          b.Mirrors job.options.params.numHypotheses.toNat os) ∧
      ∃ jobs : Nat → Option Job, (∀ i k job, jobs i = some job → jobs k = some job → i = k) ∧
        ∀ (i : Nat) (tokens : Option Batch) (params : DecodingParams) (r : CallReply),
          s.calls[i]? = some { spec := .batch tokens params, stage := .returned r } →
            (∀ f, r ≠ .error (.fault f)) ∧ Handed s.pool tokens params (jobs i) r := by
  have htally := h.held.pool.tallied
  obtain ⟨jobs, hroutes⟩ := h.routes
  refine ⟨Pool.barrier, ?_, jobs, hroutes.inj, ?_⟩
  · intro job hj os hfuture
    obtain ⟨x, hx, -, -, hlength, hconform⟩ := htally.of_future?_ok hj hfuture
    obtain ⟨b, hb, hmirrors⟩ := BatchResult.exists_mirrors hconform
    exact ⟨b, hb, (List.Forall₂.length_eq hmirrors).trans hlength, hmirrors⟩
  · intro i tokens params r hcall
    have hhanded : Handed s.pool tokens params (jobs i) r := by
      have htraced := hroutes.traced i _ hcall tokens params rfl
      generalize jobs i = job? at htraced ⊢
      cases htraced with
      | refused hr => exact handed_of_immediate? hr
      | replied hjob hreply => exact handed_of_replied htally hjob hreply
    exact ⟨hhanded.ne_fault, hhanded⟩

/-- One call gets answers that break the contract, the other answers that keep to it. -/
def carelessRun : List Action :=
  [.call (.batch (some [["a"]]) {}), .call (.batch (some [["b"]]) {}), .poll 0, .poll 0, .poll 1,
    .poll 1, .notifyWorker none, .look 0, .look 1, .finish 0 (.outputs [{ hypotheses := [["x"]] }]),
    .poll 0, .finish 1 (.outputs [{ hypotheses := [["y"]], scores := [0] }]), .poll 1]

def oneHypothesis : BatchResult :=
  ⟨[⟨[{ score := 0, tokens := ["y"] }]⟩]⟩

theorem contract_barrier_careless : ∃ s job?,
    Reachable (fun _ => .ok (Model.Echo.model {})) Files.empty echoSettings (fun _ _ => True) s ∧
      s.calls.map Call.stage = [.returned (.error (.error (.engine (.scoreCount 0 1)))),
        .returned (.ok (.results oneHypothesis))] ∧
      Handed s.pool (some [["b"]]) {} job? (.ok (.results oneHypothesis)) := by
  have hstart : Reachable (fun _ => .ok (Model.Echo.model {})) Files.empty echoSettings
      (fun _ _ => True) echoService := .start rfl
  obtain ⟨s, hleads, hstages, hcall⟩ :
      ∃ s, Leads (fun _ _ => True) echoService carelessRun s ∧
        s.calls.map Call.stage = [.returned (.error (.error (.engine (.scoreCount 0 1)))),
          .returned (.ok (.results oneHypothesis))] ∧
        s.calls[1]? =
          some ⟨.batch (some [["b"]]) {}, .returned (.ok (.results oneHypothesis))⟩ := by
    apply Exists.intro
    constructor
    · iterate 13 refine ⟨trivial, _, rfl, ?_⟩
      exact rfl
    · exact ⟨rfl, rfl⟩
  have hs := hstart.leads hleads
  obtain ⟨-, -, jobs, -, hreturned⟩ := hs.contract_barrier
  exact ⟨s, jobs 1, hs, hstages, (hreturned 1 _ _ _ hcall).2⟩

end DecodingDesk.Service

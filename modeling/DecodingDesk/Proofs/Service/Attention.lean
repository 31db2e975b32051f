import DecodingDesk.Proofs.Service.Marshalling
/-!
# Who decides about attention

Callers say whether they want attention, but the flag only goes to the model.  What they are
handed shows attention exactly where the model's answer has some, because neither the contract
check nor the marshalling reads the flag.  A model that keeps to the flag is needed for a
caller who wants none to get none.
-/

namespace DecodingDesk

open Model (Output)

namespace ItemResult

/-- A result shows attention as the model's answer has it: a matrix for each hypothesis, or
none for any. -/
structure Shows (r : ItemResult) (o : Output) : Prop where
  matrices : ∀ ms, o.attention = some ms → r.hypotheses.map Hypothesis.attention = ms.map some
  none : o.attention = none → ∀ h ∈ r.hypotheses, h.attention = none
  length : r.hypotheses.length = o.hypotheses.length

theorem Mirrors.shows {allowed : Nat} {r : ItemResult} {o : Output} (h : Mirrors allowed r o) :
    Shows r o where
  matrices := h.attention
  none hnone x hx := by
    have hsome := h.allOrNone x hx
    rw [hnone] at hsome
    simpa using hsome
  length := by
    rw [← h.tokens, List.length_map]

/-- A result is without attention if and only if the answer has none to give. -/
theorem Shows.attention_eq_none_iff {r : ItemResult} {o : Output} (h : Shows r o) :
    (∀ x ∈ r.hypotheses, x.attention = Option.none) ↔
      o.hypotheses = [] ∨ o.attention = Option.none := by
  constructor
  · intro hnone
    cases hattention : o.attention with
    | none => exact .inr rfl
    | some ms =>
      left
      have hmatrices := h.matrices ms hattention
      cases hr : r.hypotheses with
      | nil =>
        have hlength := h.length
        rw [hr] at hlength
        exact List.length_eq_zero_iff.mp hlength.symm
      | cons x rest =>
        -- a first hypothesis would have the first matrix
        have hx := hnone x (by rw [hr]; exact List.mem_cons_self)
        rw [hr, List.map_cons, hx] at hmatrices
        cases ms <;> cases hmatrices
  · rintro (hempty | hnone)
    · have hlength := h.length
      rw [hempty, List.length_nil, List.length_eq_zero_iff] at hlength
      rw [hlength]
      exact nofun
    · exact h.none hnone

end ItemResult

namespace BatchResult

/-- The results show attention as the answers have it, one by one. -/
def Shows (b : BatchResult) (os : List Output) : Prop :=
  List.Forall₂ ItemResult.Shows b.results os

theorem Mirrors.shows {allowed : Nat} {b : BatchResult} {os : List Output}
    (h : Mirrors allowed b os) : b.Shows os :=
  h.imp fun _ _ hmirrors => hmirrors.shows

theorem Shows.attention_eq_none_iff {b : BatchResult} {os : List Output} (h : b.Shows os) :
    (∀ r ∈ b.results, ∀ x ∈ r.hypotheses, x.attention = none) ↔
      ∀ o ∈ os, o.hypotheses = [] ∨ o.attention = none := by
  obtain ⟨results⟩ := b
  unfold Shows at h
  simp only at h ⊢
  induction h with
  | nil => exact ⟨nofun, nofun⟩
  | cons hshows _ ih =>
    rw [List.forall_mem_cons, List.forall_mem_cons, ih, hshows.attention_eq_none_iff]

end BatchResult

namespace Service

variable {loader : Model.Loader} {files : Files} {settings : Settings}
  {Allows : Service → Action → Prop} {s : Service}

/-- What the model answered for a call: nothing for an empty batch, which never reaches it, and
else the outputs of the call for the job of that call. -/
inductive AnsweredWith (p : Pool) (tokens : Option Batch) (params : DecodingParams) :
    Option Job → List Output → Prop where
  | empty {job? : Option Job} (hempty : Batch.ofOption tokens = []) :
      AnsweredWith p tokens params job? []
  | job {x : Pool.Answer} {os : List Output} (hx : x ∈ p.answers)
      (hbatch : x.job.batch = Batch.ofOption tokens) (hparams : x.job.options.params = params)
      (houtcome : x.outcome = .outputs os) : AnsweredWith p tokens params (some x.job) os

/-- Results that a caller is handed have attention exactly where the model's answer to the call
for his own job has some, whether he wanted it or not.  So they have none if and only if the
model attached none. -/
theorem Reachable.attention_as_answered (h : Reachable loader files settings Allows s) :
    ∃ jobs : Nat → Option Job, (∀ i k job, jobs i = some job → jobs k = some job → i = k) ∧
      ∀ (i : Nat) (tokens : Option Batch) (params : DecodingParams) (b : BatchResult),
        s.calls[i]? =
            some { spec := .batch tokens params, stage := .returned (.ok (.results b)) } →
          ∃ os, AnsweredWith s.pool tokens params (jobs i) os ∧ b.Shows os ∧
            ((∀ r ∈ b.results, ∀ x ∈ r.hypotheses, x.attention = none) ↔
              ∀ o ∈ os, o.hypotheses = [] ∨ o.attention = none) := by
  obtain ⟨-, -, jobs, hinj, hreturned⟩ := h.contract_barrier
  refine ⟨jobs, hinj, fun i tokens params b hcall => ?_⟩
  obtain ⟨-, hhanded⟩ := hreturned i tokens params _ hcall
  generalize jobs i = job? at hhanded
  cases hhanded with
  | empty hvalid hempty =>
    have hshows : BatchResult.Shows {} [] := .nil
    exact ⟨[], .empty hempty, hshows, hshows.attention_eq_none_iff⟩
  | answered hx hjob houtcome _ hmirrors =>
    have hshows := hmirrors.shows
    exact ⟨_, .job hx hjob.batch (Options.params_of_validate hjob.valid) houtcome, hshows,
      hshows.attention_eq_none_iff⟩

/-- A model that attaches a matrix to whatever it is asked. -/
def eager : Model := fun batch _ =>
  .outputs (batch.map fun _ =>
    { hypotheses := [["x"]], scores := [0], attention := some [[[1]]] })

def unaskedResult : BatchResult :=
  ⟨[⟨[{ score := 0, tokens := ["x"], attention := some [[1]] }]⟩]⟩

/-- A call that wants no attention. -/
def unaskedRun : List Action :=
  [.call (.batch (some [["a"]]) { returnAttention := false }), .poll 0, .poll 0,
    .notifyWorker none, .look 0, .finish 0 (eager [["a"]] .default), .poll 0]

theorem exists_unaskedRun : ∃ s,
    Reachable (fun _ => .ok eager) Files.empty echoSettings Follows s ∧
    s.calls[0]? = some { spec := .batch (some [["a"]]) { returnAttention := false },
                         stage := .returned (.ok (.results unaskedResult)) } := by
  have hstart : Reachable (fun _ => .ok eager) Files.empty echoSettings Follows
      { echoService with model := eager } := .start rfl
  obtain ⟨s, hleads, hcall⟩ :
      ∃ s, Leads Follows { echoService with model := eager } unaskedRun s ∧
        s.calls[0]? = some { spec := .batch (some [["a"]]) { returnAttention := false },
                             stage := .returned (.ok (.results unaskedResult)) } := by
    apply Exists.intro
    constructor
    · iterate 5 refine ⟨trivial, _, rfl, ?_⟩
      refine ⟨by rintro job ⟨⟩; rfl, _, rfl, ?_⟩
      refine ⟨trivial, _, rfl, ?_⟩
      exact rfl
    · exact rfl
  exact ⟨s, hstart.leads hleads, hcall⟩

theorem attention_as_answered_unasked : ∃ s job? os,
    Reachable (fun _ => .ok eager) Files.empty echoSettings Follows s ∧
      s.calls[0]? = some { spec := .batch (some [["a"]]) { returnAttention := false },
                           stage := .returned (.ok (.results unaskedResult)) } ∧
      AnsweredWith s.pool (some [["a"]]) { returnAttention := false } job? os ∧
      unaskedResult.Shows os := by
  obtain ⟨s, hs, hcall⟩ := exists_unaskedRun
  obtain ⟨jobs, -, hreturned⟩ := hs.attention_as_answered
  obtain ⟨os, hanswered, hshows, -⟩ := hreturned 0 _ _ _ hcall
  exact ⟨s, jobs 0, os, hs, hcall, hanswered, hshows⟩

/-- It is not true of every model that a caller who wants no attention gets none. -/
theorem not_attention_only_wanted :
    ¬ ∀ (loader : Model.Loader) (files : Files) (settings : Settings) (s : Service) (i : Nat)
        (tokens : Option Batch) (params : DecodingParams) (b : BatchResult),
      Reachable loader files settings Follows s →
        s.calls[i]? =
          some { spec := .batch tokens params, stage := .returned (.ok (.results b)) } →
        params.returnAttention = false →
        ∀ r ∈ b.results, ∀ x ∈ r.hypotheses, x.attention = none := by
  intro hunwanted
  obtain ⟨s, hs, hcall⟩ := exists_unaskedRun
  have hnone := hunwanted _ _ _ s 0 _ _ unaskedResult hs hcall rfl _ List.mem_cons_self _
    List.mem_cons_self
  cases hnone

end Service

end DecodingDesk

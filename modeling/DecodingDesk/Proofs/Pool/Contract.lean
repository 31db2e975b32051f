import DecodingDesk.Proofs.Pool.Answers
/-!
# What the contract check lets through

The check is a barrier: what a model answers is passed on as it is if it keeps to the
contract, and otherwise the caller gets the first thing that is wrong.  What comes first is
said here without the check: the number of answers comes before the answers, an answer
before those behind it, and in an answer the hypotheses come before the scores and the
scores before the matrices.
-/

namespace DecodingDesk

namespace Model.Output

/-- The first rule that an answer breaks when at most `allowed` hypotheses are wanted. -/
inductive Breaks (allowed : Nat) (o : Output) : EngineError → Prop where
  | count (hcount : allowed < o.hypotheses.length) :
      Breaks allowed o (.hypothesisCount o.hypotheses.length allowed)
  | scores (hcount : o.hypotheses.length ≤ allowed)
      (hscores : o.scores.length ≠ o.hypotheses.length) :
      Breaks allowed o (.scoreCount o.scores.length o.hypotheses.length)
  | attention {ms : List Matrix} (hcount : o.hypotheses.length ≤ allowed)
      (hscores : o.scores.length = o.hypotheses.length) (hmatrices : o.attention = some ms)
      (hlength : ms.length ≠ o.hypotheses.length) :
      Breaks allowed o (.attentionCount ms.length o.hypotheses.length)

theorem violation?_eq_some_iff {o : Output} {allowed : Nat} {e : EngineError} :
    o.violation? allowed = some e ↔ o.Breaks allowed e := by
  constructor
  · intro h
    unfold violation? at h
    simp only at h
    split at h
    · cases h
      exact .count ‹_›
    · have hcount := Nat.le_of_not_lt ‹_›
      split at h
      · cases h
        exact .scores hcount ‹_›
      · have hscores := Decidable.not_not.mp ‹_›
        split at h
        · cases h
        · split at h
          · cases h
            exact .attention hcount hscores ‹_› ‹_›
          · cases h
  · rintro (hcount | ⟨hcount, hscores⟩ | ⟨hcount, hscores, hmatrices, hlength⟩)
    · simp [violation?, hcount]
    · simp [violation?, Nat.not_lt.mpr hcount, hscores]
    · simp [violation?, Nat.not_lt.mpr hcount, hscores, hmatrices, hlength]

end Model.Output

namespace Pool

open Model (Output Outcome Panic)

/-- The first thing that is wrong with the answers for so many items. -/
inductive Rejects (items allowed : Nat) (os : List Output) : EngineError → Prop where
  | number (hlength : os.length ≠ items) :
      Rejects items allowed os (.resultCount os.length items)
  | output {before after : List Output} {o : Output} {e : EngineError}
      (hlength : os.length = items) (hsplit : os = before ++ o :: after)
      (hbefore : ∀ x ∈ before, x.Conforms allowed) (hbreaks : o.Breaks allowed e) :
      Rejects items allowed os e

theorem check_eq_error_iff {items allowed : Nat} {os : List Output} {e : EngineError} :
    check items allowed os = .error e ↔ Rejects items allowed os e := by
  have hfirst : os.findSome? (fun o => o.violation? allowed) = some e ↔
      ∃ before o after, os = before ++ o :: after ∧ o.Breaks allowed e ∧
        ∀ x ∈ before, x.Conforms allowed := by
    simp only [List.findSome?_eq_some_iff, Output.violation?_eq_some_iff,
      Output.violation?_eq_none_iff]
  unfold check
  by_cases hlength : os.length = items
  · rw [if_neg (Decidable.not_not.mpr hlength)]
    constructor
    · intro h
      split at h
      · rename_i e' hsome
        cases h
        obtain ⟨before, o, after, hsplit, hbreaks, hbefore⟩ := hfirst.mp hsome
        exact .output hlength hsplit hbefore hbreaks
      · cases h
    · rintro (hne | ⟨-, hsplit, hbefore, hbreaks⟩)
      · exact absurd hlength hne
      · rw [hfirst.mpr ⟨_, _, _, hsplit, hbreaks, hbefore⟩]
  · rw [if_pos hlength]
    constructor
    · rintro ⟨⟩
      exact .number hlength
    · rintro (_ | ⟨hsame, -⟩)
      · rfl
      · exact absurd hsame hlength

/-- What becomes of what a model returns for a job: it is passed on unchanged exactly if it
keeps to the contract, and otherwise there is an error that says what is wrong first. -/
structure Barrier (job : Job) : Prop where
  passes : ∀ outcome os, job.verdict outcome = some (.ok os) ↔
    outcome = .outputs os ∧ os.length = job.batch.length ∧
      ∀ o ∈ os, o.Conforms job.options.params.numHypotheses.toNat
  rejects : ∀ os e, job.verdict (.outputs os) = some (.error e) ↔
    Rejects job.batch.length job.options.params.numHypotheses.toNat os e
  failed : ∀ e, job.verdict (.failed e) = some (.error e)
  settles : ∀ outcome, outcome ≠ .panicked .lethal → ∃ reply, job.verdict outcome = some reply

theorem barrier (job : Job) : Barrier job where
  passes outcome os := by
    cases outcome with
    | outputs answers =>
      show some (check _ _ answers) = some (.ok os) ↔ _
      rw [Option.some_inj, check_eq_ok_iff, Outcome.outputs.injEq, eq_comm (a := os)]
      constructor
      · rintro ⟨rfl, h⟩
        exact ⟨rfl, h⟩
      · rintro ⟨rfl, h⟩
        exact ⟨rfl, h⟩
    | failed e => simp [Job.verdict, verdict]
    | panicked panic => cases panic <;> simp [Job.verdict, verdict]
  rejects os e := by
    rw [← check_eq_error_iff]
    exact Option.some_inj
  failed e := rfl
  settles outcome hlethal := by
    cases outcome with
    | outputs | failed => exact ⟨_, rfl⟩
    | panicked panic =>
      cases panic with
      | message | unnamed => exact ⟨_, rfl⟩
      | lethal => exact absurd rfl hlethal

/-- Answers that reach a caller are those of the call for his job, and keep to the contract. -/
theorem Tallied.of_replied_ok {p : Pool} (h : p.Tallied) {job : Job} {os : List Output}
    (hreply : p.Replied job (.ok os)) :
    ∃ x ∈ p.answers, x.job = job ∧ x.outcome = .outputs os ∧ os.length = job.batch.length ∧
      ∀ o ∈ os, o.Conforms job.options.params.numHypotheses.toNat := by
  generalize hok : Except.ok os = reply at hreply
  cases hreply with
  | answered hx =>
    have hverdict := h.verdict _ hx
    rw [← hok] at hverdict
    exact ⟨_, hx, rfl, ((barrier _).passes _ _).mp hverdict⟩
  | dropped => cases hok

theorem Tallied.of_future?_ok {p : Pool} (h : p.Tallied) {job : Job} (hj : job ∈ p.posted)
    {os : List Output} (hfuture : p.future? job.id = some (.ok os)) :
    ∃ x ∈ p.answers, x.job = job ∧ x.outcome = .outputs os ∧ os.length = job.batch.length ∧
      ∀ o ∈ os, o.Conforms job.options.params.numHypotheses.toNat := by
  rcases h.replied_or_left hj hfuture with hreply | ⟨-, hleft⟩
  · exact h.of_replied_ok hreply
  · cases hleft

end Pool

end DecodingDesk

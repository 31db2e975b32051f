import Mathlib.Data.List.Forall2
import DecodingDesk.Proofs.Pool.Answers
import DecodingDesk.Result
/-!
# Results from answers

Answers that keep to the engine's contract have enough scores and matrices, so that a
result can be built from each of them: as many results as answers, in the same order.
-/

namespace DecodingDesk

open Model (Output)

namespace ItemResult

theorem length_attentions_of_conforms {o : Output} {allowed : Nat} (h : o.Conforms allowed) :
    (attentions o).length = o.hypotheses.length := by
  unfold attentions
  split
  · exact List.length_replicate
  · rename_i ms hms
    rw [List.length_map, h.attention_length ms hms]

theorem exists_ofOutput {o : Output} {allowed : Nat} (h : o.Conforms allowed) :
    ∃ r, ofOutput o = .ok r := by
  have hscores : ¬ o.scores.length < o.hypotheses.length := by
    rw [h.scores_length]
    exact Nat.lt_irrefl _
  have hmatrices : ¬ (attentions o).length < o.hypotheses.length := by
    rw [length_attentions_of_conforms h]
    exact Nat.lt_irrefl _
  unfold ofOutput
  rw [if_neg hscores, if_neg hmatrices]
  exact ⟨_, rfl⟩

/-- A result holds a model's answer: at most so many hypotheses, for each of them the same
tokens, score and matrix, and matrices either for all of them or for none. -/
structure Mirrors (allowed : Nat) (r : ItemResult) (o : Output) : Prop where
  count_le : r.hypotheses.length ≤ allowed
  tokens : r.hypotheses.map Hypothesis.tokens = o.hypotheses
  scores : r.hypotheses.map Hypothesis.score = o.scores
  attention : ∀ ms, o.attention = some ms → r.hypotheses.map Hypothesis.attention = ms.map some
  allOrNone : ∀ h ∈ r.hypotheses, h.attention.isSome = o.attention.isSome

theorem maps_of_ofOutput {r : ItemResult} {o : Output} {allowed : Nat} (h : o.Conforms allowed)
    (hr : ofOutput o = .ok r) :
    r.hypotheses.map Hypothesis.tokens = o.hypotheses ∧
      r.hypotheses.map Hypothesis.score = o.scores ∧
      r.hypotheses.map Hypothesis.attention = attentions o := by
  have hattentions := length_attentions_of_conforms h
  have hzip : (o.hypotheses.zip o.scores).length = o.hypotheses.length := by
    rw [List.length_zip, h.scores_length, Nat.min_self]
  unfold ofOutput at hr
  simp only at hr
  split at hr
  · cases hr
  · split at hr
    · cases hr
    · cases hr
      simp only [List.map_map]
      refine ⟨?_, ?_, ?_⟩
      · calc ((o.hypotheses.zip o.scores).zip (attentions o)).map (Prod.fst ∘ Prod.fst)
            = (((o.hypotheses.zip o.scores).zip (attentions o)).map Prod.fst).map Prod.fst :=
              (List.map_map ..).symm
          _ = (o.hypotheses.zip o.scores).map Prod.fst := by
              rw [List.map_fst_zip (by omega)]
          _ = o.hypotheses := List.map_fst_zip (Nat.le_of_eq h.scores_length.symm)
      · calc ((o.hypotheses.zip o.scores).zip (attentions o)).map (Prod.snd ∘ Prod.fst)
            = (((o.hypotheses.zip o.scores).zip (attentions o)).map Prod.fst).map Prod.snd :=
              (List.map_map ..).symm
          _ = (o.hypotheses.zip o.scores).map Prod.snd := by
              rw [List.map_fst_zip (by omega)]
          _ = o.scores := List.map_snd_zip (Nat.le_of_eq h.scores_length)
      · exact List.map_snd_zip (by omega)

theorem mirrors_of_ofOutput {r : ItemResult} {o : Output} {allowed : Nat} (h : o.Conforms allowed)
    (hr : ofOutput o = .ok r) : Mirrors allowed r o := by
  obtain ⟨htokens, hscores, hattention⟩ := maps_of_ofOutput h hr
  refine ⟨?_, htokens, hscores, fun ms hms => ?_, fun x hx => ?_⟩
  · rw [← List.length_map, htokens]
    exact h.count_le
  · rw [hattention, attentions, hms]
  · have hmem : x.attention ∈ attentions o := hattention ▸ List.mem_map_of_mem hx
    cases hms : o.attention with
    | none =>
      rw [attentions, hms] at hmem
      rw [List.eq_of_mem_replicate hmem]
      rfl
    | some ms =>
      rw [attentions, hms] at hmem
      obtain ⟨m, -, hm⟩ := List.mem_map.mp hmem
      rw [← hm]
      rfl

end ItemResult

namespace BatchResult

/-- The results are those of the answers, one by one. -/
def Matches (results : List ItemResult) (os : List Output) : Prop :=
  List.Forall₂ (fun r o => ItemResult.ofOutput o = .ok r) results os

theorem ofOutputs_of_matches {results : List ItemResult} {os : List Output}
    (h : Matches results os) : ofOutputs os = .ok ⟨results⟩ := by
  have hmap : os.mapM ItemResult.ofOutput = .ok results := by
    induction h with
    | nil => rfl
    | cons hr _ ih =>
      rw [List.mapM_cons, hr, ih]
      rfl
  rw [ofOutputs, hmap]
  rfl

theorem exists_ofOutputs {os : List Output} {allowed : Nat}
    (h : ∀ o ∈ os, o.Conforms allowed) :
    ∃ results, ofOutputs os = .ok ⟨results⟩ ∧ Matches results os := by
  suffices hmatches : ∃ results, Matches results os by
    obtain ⟨results, hmatches⟩ := hmatches
    exact ⟨results, ofOutputs_of_matches hmatches, hmatches⟩
  induction os with
  | nil => exact ⟨[], .nil⟩
  | cons o os ih =>
    obtain ⟨r, hr⟩ := ItemResult.exists_ofOutput (h o List.mem_cons_self)
    obtain ⟨results, hmatches⟩ := ih fun x hx => h x (List.mem_cons_of_mem _ hx)
    exact ⟨r :: results, .cons hr hmatches⟩

/-- The results hold the answers, one by one. -/
def Mirrors (allowed : Nat) (b : BatchResult) (os : List Output) : Prop :=
  List.Forall₂ (ItemResult.Mirrors allowed) b.results os

theorem mirrors_of_matches {results : List ItemResult} {os : List Output} {allowed : Nat}
    (h : ∀ o ∈ os, o.Conforms allowed) (hmatches : Matches results os) :
    Mirrors allowed ⟨results⟩ os := by
  induction hmatches with
  | nil => exact .nil
  | cons hr _ ih =>
    exact .cons (ItemResult.mirrors_of_ofOutput (h _ List.mem_cons_self) hr)
      (ih fun o ho => h o (List.mem_cons_of_mem _ ho))

/-- A result can be built from answers that keep to the contract, and holds them. -/
theorem exists_mirrors {os : List Output} {allowed : Nat} (h : ∀ o ∈ os, o.Conforms allowed) :
    ∃ b, ofOutputs os = .ok b ∧ Mirrors allowed b os := by
  obtain ⟨results, hresults, hmatches⟩ := exists_ofOutputs h
  exact ⟨_, hresults, mirrors_of_matches h hmatches⟩

end BatchResult

end DecodingDesk

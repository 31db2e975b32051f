import Mathlib.Data.List.Forall2
import DecodingDesk.Model.Echo
import DecodingDesk.Proofs.Result
import DecodingDesk.Proofs.Result.RoundTrip
import DecodingDesk.Proofs.Service.Isolation
/-!
# What the echo model answers

The answer for a source keeps to the engine's contract, so a result is built from it: as many
hypotheses as are wanted and tracked, the one of a rank being the source rotated by that rank.
A model without a vocabulary answers every batch.  With the usual penalty and the usual beam all
numbers in its results are such that they are read back.
-/

namespace DecodingDesk

open Model (Matrix Output)
open Json (Value)

namespace Model.Echo

variable {e : Echo} {options : Options} {source : Item}

/-! ## Rotations -/

/-- The first tokens, as many as the rank says, go to the end; ranks count modulo the length. -/
theorem rotateLeft_eq (source : Item) (rank : Nat) :
    source.rotateLeft rank =
      source.drop (rank % source.length) ++ source.take (rank % source.length) := by
  match source with
  | [] => simp [List.rotateLeft]
  | [token] => simp [List.rotateLeft, Nat.mod_one]
  | first :: second :: rest => simp [List.rotateLeft]

/-! ## Answers -/

theorem count_le : count options ≤ options.params.numHypotheses.toNat :=
  Nat.min_le_left _ _

theorem conforms_output (e : Echo) (options : Options) (source : Item) :
    (e.output options source).Conforms options.params.numHypotheses.toNat where
  count_le := by
    simp only [output, List.length_map, List.length_range]
    exact count_le
  scores_length := by simp [output]
  attention_length ms hms := by
    simp only [output] at hms
    split at hms <;> cases hms
    simp [output]

/-- The result for a source. -/
def result (e : Echo) (options : Options) (source : Item) : ItemResult where
  hypotheses := (List.range (count options)).map fun rank =>
    { score := score options rank
      tokens := e.hypothesis options source rank
      attention :=
        if options.params.returnAttention then some (align source (e.hypothesis options source rank))
        else none }

theorem ofOutput_output (e : Echo) (options : Options) (source : Item) :
    ItemResult.ofOutput (e.output options source) = .ok (e.result options source) := by
  have hattentions : ItemResult.attentions (e.output options source) =
      (List.range (count options)).map fun rank =>
        if options.params.returnAttention then some (align source (e.hypothesis options source rank))
        else none := by
    unfold ItemResult.attentions output
    by_cases hwanted : options.params.returnAttention
    · simp [hwanted]
    · simp [hwanted]
  rw [ItemResult.ofOutput, hattentions]
  simp [output, result, List.zip_map', Function.comp_def]

theorem ofOutputs_map_output (e : Echo) (options : Options) (batch : Batch) :
    BatchResult.ofOutputs (batch.map (e.output options)) = .ok ⟨batch.map (e.result options)⟩ := by
  apply BatchResult.ofOutputs_of_matches
  simpa [BatchResult.Matches] using fun item _ => ofOutput_output e options item

theorem outputs_of_open (hopen : e.vocabulary = none) (hfits : fitsMemory (count options) = true)
    (batch : Batch) : e.outputs options batch = .ok (batch.map (e.output options)) := by
  induction batch with
  | nil => rfl
  | cons source rest ih =>
    have hknown : e.unknownToken? source = none := by
      rw [unknownToken?, hopen]
    simp only [outputs, hknown, hfits, if_true, ih]
    rfl

theorem answerAlone_of_open (hopen : e.vocabulary = none)
    (hfits : fitsMemory (count options) = true) (batch : Batch) :
    Pool.answerAlone e.model options batch = .ok (batch.map (e.output options)) := by
  have hcheck : Pool.check batch.length options.params.numHypotheses.toNat
      (batch.map (e.output options)) = .ok (batch.map (e.output options)) := by
    refine (Pool.check_eq_ok_iff ..).mpr ⟨rfl, List.length_map _, fun o ho => ?_⟩
    obtain ⟨source, -, rfl⟩ := List.mem_map.mp ho
    exact conforms_output e options source
  rw [Pool.answerAlone, model, outputs_of_open hopen hfits, Pool.verdict, hcheck]
  rfl

/-- Without a vocabulary every batch is answered, each item with its own result. -/
theorem alone_of_open (hopen : e.vocabulary = none) {params : DecodingParams}
    (hvalid : Options.validate params = .ok options)
    (hfits : fitsMemory (count options) = true) (batch : Batch) :
    Service.alone e.model (some batch) params =
      .ok (.results ⟨batch.map (e.result options)⟩) := by
  by_cases hempty : batch = []
  · subst hempty
    rw [Service.alone, hvalid]
    rfl
  · have hne : Batch.ofOption (some batch) ≠ [] := hempty
    rw [Service.alone_of_batch hvalid hne, Batch.ofOption, Option.getD_some,
      answerAlone_of_open hopen hfits, Service.batchReply, ofOutputs_map_output]

/-! ## Numbers -/

theorem mem_numbers_align {target : Item} {x : Float32} (hx : x ∈ (align source target).numbers) :
    x = 0 ∨ x = 1 := by
  obtain ⟨row, hrow, hx⟩ := List.mem_flatten.mp hx
  obtain ⟨token, -, rfl⟩ := List.mem_map.mp hrow
  obtain ⟨i, -, rfl⟩ := List.mem_map.mp hx
  split
  · exact .inr rfl
  · exact .inl rfl

theorem mem_numbers_result {x : Float32} (hx : x ∈ (e.result options source).numbers) :
    (∃ rank < count options, x = score options rank) ∨ x = 0 ∨ x = 1 := by
  obtain ⟨h, hh, hx⟩ := List.mem_flatMap.mp hx
  obtain ⟨rank, hrank, rfl⟩ := List.mem_map.mp hh
  rcases List.mem_cons.mp hx with rfl | hx
  · exact .inl ⟨rank, List.mem_range.mp hrank, rfl⟩
  · simp only [Hypothesis.weights] at hx
    split at hx
    · exact .inr (mem_numbers_align hx)
    · cases hx

/-- The scores of the first ranks under the usual penalty. -/
theorem isExact_score : ∀ rank < 4, ∀ options : Options,
    options.params.lengthPenalty = defaultPenalty →
      (score options rank).isFinite ∧ Value.IsExact (score options rank) := by
  have hfirst : ∀ rank < 4,
      (-(rank + 1).toUInt64.toFloat32 / (1 + defaultPenalty.abs)).isFinite ∧
        Value.IsExact (-(rank + 1).toUInt64.toFloat32 / (1 + defaultPenalty.abs)) := by
    decide +kernel
  intro rank hrank options hpenalty
  rw [score, hpenalty]
  exact hfirst rank hrank

theorem isExact_of_mem_numbers (hpenalty : options.params.lengthPenalty = defaultPenalty)
    (hcount : count options ≤ 4) {x : Float32} (hx : x ∈ (e.result options source).numbers) :
    x.isFinite ∧ Value.IsExact x := by
  rcases mem_numbers_result hx with ⟨rank, hrank, rfl⟩ | rfl | rfl
  · exact isExact_score rank (by omega) options hpenalty
  · decide +kernel
  · decide +kernel

/-- What the model answers under the usual penalty and with at most four hypotheses is read
back from its written form. -/
theorem parse?_print_results (hpenalty : options.params.lengthPenalty = defaultPenalty)
    (hcount : count options ≤ 4) (batch : Batch) :
    BatchResult.parse? (BatchResult.print ⟨batch.map (e.result options)⟩) =
      some ⟨batch.map (e.result options)⟩ := by
  have hexact : ∀ x ∈ BatchResult.numbers ⟨batch.map (e.result options)⟩,
      x.isFinite ∧ Value.IsExact x := by
    intro x hx
    obtain ⟨r, hr, hx⟩ := List.mem_flatMap.mp hx
    obtain ⟨source, -, rfl⟩ := List.mem_map.mp hr
    exact isExact_of_mem_numbers hpenalty hcount hx
  rw [BatchResult.parse?_print fun x hx _ => (hexact x hx).2, if_pos]
  exact List.all_eq_true.mpr fun x hx => (hexact x hx).1

end Model.Echo

end DecodingDesk

import Mathlib.Data.List.Rotate
import DecodingDesk.Proofs.Model.Echo
/-!
# The echo model answers item by item

A call of the echo model fails exactly if some token of its batch is not known, and then names
the first one.  Otherwise it answers every item by itself, and each answer keeps to the
engine's contract.  So it does not matter how a batch is cut into parts: the answers for the
parts put together are those for the batch, and the first part that fails is what it fails with.
-/

namespace DecodingDesk.Model

/-- The outcome for two batches together: the answers for both, or the first failure. -/
def Outcome.append : Outcome → Outcome → Outcome
  | .outputs first, .outputs second => .outputs (first ++ second)
  | .outputs _, failure => failure
  | failure, _ => failure

namespace Echo

variable {e : Echo} {options : Options} {source : Item}

/-! ## Tokens -/

/-- Whether a source token is one that the model knows. -/
def knows (e : Echo) (token : String) : Bool :=
  e.vocabulary.all fun known => known.contains token

/-- Whether a token is one that the model generates. -/
def generates (e : Echo) (options : Options) (token : String) : Bool :=
  !options.params.restrictVocabulary || e.vocabularyMap.all fun allowed => allowed.contains token

theorem unknownToken?_eq (e : Echo) (source : Item) :
    e.unknownToken? source = source.find? fun token => !e.knows token := by
  unfold unknownToken? knows
  cases e.vocabulary with
  | none => exact (List.find?_eq_none.mpr fun _ _ => Bool.false_ne_true).symm
  | some known => simp

theorem restrict_eq_filter (e : Echo) (options : Options) (tokens : Item) :
    e.restrict options tokens = tokens.filter (e.generates options) := by
  unfold restrict generates
  cases options.params.restrictVocabulary with
  | false => simp
  | true => cases e.vocabularyMap <;> simp

theorem rotateLeft_eq_rotate (source : Item) (rank : Nat) :
    source.rotateLeft rank = source.rotate rank := by
  rw [rotateLeft_eq, List.rotate_eq_drop_append_take_mod]

/-! ## One answer -/

/-- What an answer for a source is like.  Ranks count modulo the length of the source. -/
structure Answers (e : Echo) (options : Options) (source : Item) (o : Output) : Prop where
  hypotheses : o.hypotheses =
    (List.range (min options.params.numHypotheses.toNat options.params.beamSize.toNat)).map
      fun rank => ((source.rotate rank).filter (e.generates options)).take
        options.params.maxDecodingLength.toNat
  accepted : o.violation? options.params.numHypotheses.toNat = none
  attention : o.attention.isSome = options.params.returnAttention
  /-- There is a row for each output token and in it a weight for each source token. -/
  matrices : ∀ ms, o.attention = some ms → List.Forall₂
    (fun m tokens => m.length = tokens.length ∧ ∀ row ∈ m, row.length = source.length)
    ms o.hypotheses

theorem hypothesis_eq (e : Echo) (options : Options) (source : Item) (rank : Nat) :
    e.hypothesis options source rank =
      ((source.rotate rank).filter (e.generates options)).take
        options.params.maxDecodingLength.toNat := by
  rw [hypothesis, restrict_eq_filter, rotateLeft_eq_rotate]

theorem generates_of_free
    (hfree : options.params.restrictVocabulary = false ∨ e.vocabularyMap = none)
    (token : String) : e.generates options token = true := by
  unfold generates
  rcases hfree with h | h <;> simp [h]

theorem hypothesis_of_free
    (hfree : options.params.restrictVocabulary = false ∨ e.vocabularyMap = none)
    (source : Item) (rank : Nat) : e.hypothesis options source rank =
      (source.rotate rank).take options.params.maxDecodingLength.toNat := by
  rw [hypothesis_eq, List.filter_eq_self.mpr fun token _ => generates_of_free hfree token]

theorem shape_align (source target : Item) : (align source target).length = target.length ∧
    ∀ row ∈ align source target, row.length = source.length := by
  refine ⟨List.length_map _, fun row hrow => ?_⟩
  obtain ⟨token, -, rfl⟩ := List.mem_map.mp hrow
  rw [alignRow, List.length_map, List.length_range]

theorem answers_output (e : Echo) (options : Options) (source : Item) :
    e.Answers options source (e.output options source) where
  hypotheses := by simp only [output, count, ← hypothesis_eq]
  accepted := (Output.violation?_eq_none_iff _ _).mpr (conforms_output e options source)
  attention := by
    unfold output
    cases options.params.returnAttention <;> rfl
  matrices ms hms := by
    simp only [output] at hms ⊢
    split at hms
    · cases hms
      rw [List.forall₂_map_left_iff]
      exact List.forall₂_same.mpr fun target _ => shape_align source target
    · cases hms

/-! ## Batches -/

theorem outputs_eq (hfits : fitsMemory (count options) = true) (batch : Batch) :
    e.outputs options batch =
      match batch.flatten.find? fun token => !e.knows token with
      | some token => .error (.failed (.outsideVocabulary token))
      | none => .ok (batch.map (e.output options)) := by
  induction batch with
  | nil => rfl
  | cons source rest ih =>
    rw [outputs, unknownToken?_eq, List.flatten_cons, List.find?_append]
    cases source.find? fun token => !e.knows token with
    | some token => rfl
    | none =>
      simp only [hfits, if_true, Option.none_or]
      rw [ih]
      cases rest.flatten.find? fun token => !e.knows token <;> rfl

/-- What a call comes to: the first token that is not known fails it. -/
theorem model_eq (hfits : fitsMemory (count options) = true) (batch : Batch) :
    e.model batch options =
      match batch.flatten.find? fun token => !e.knows token with
      | some token => .failed (.outsideVocabulary token)
      | none => .outputs (batch.map (e.output options)) := by
  rw [model, outputs_eq hfits]
  cases batch.flatten.find? fun token => !e.knows token <;> rfl

theorem model_append (hfits : fitsMemory (count options) = true) (first second : Batch) :
    e.model (first ++ second) options =
      (e.model first options).append (e.model second options) := by
  simp only [model_eq hfits, List.flatten_append, List.find?_append]
  cases first.flatten.find? fun token => !e.knows token with
  | some token =>
    cases second.flatten.find? fun token => !e.knows token <;> rfl
  | none =>
    cases second.flatten.find? fun token => !e.knows token with
    | some token => rfl
    | none => simp [Outcome.append]

/-- What the model does with batches. -/
structure ItemByItem (e : Echo) (options : Options) : Prop where
  /-- A call fails with the first token that is not known, and else it does not fail. -/
  failed : ∀ batch reason, e.model batch options = .failed reason ↔
    ∃ token, batch.flatten.find? (fun token => !e.knows token) = some token ∧
      reason = .outsideVocabulary token
  reason : ∀ token, (EngineError.outsideVocabulary token).reason =
    "token '" ++ token ++ "' is outside the vocabulary"
  answered : ∀ batch, (∀ token ∈ batch.flatten, e.knows token = true) →
    ∃ os, e.model batch options = .outputs os ∧ List.Forall₂ (e.Answers options) batch os
  append : ∀ first second, e.model (first ++ second) options =
    (e.model first options).append (e.model second options)
  /-- However a batch is cut into parts, the outcomes for them make up the one for the batch. -/
  parts : ∀ parts : List Batch, e.model parts.flatten options =
    parts.foldr (fun part outcome => (e.model part options).append outcome) (.outputs [])

/-- With room for as many hypotheses as are wanted and tracked, the model answers item by item,
and its answers keep to the contract. -/
theorem itemByItem (e : Echo) (options : Options)
    (hfits : fitsMemory
      (min options.params.numHypotheses.toNat options.params.beamSize.toNat) = true) :
    e.ItemByItem options where
  failed batch reason := by
    rw [model_eq hfits]
    cases batch.flatten.find? fun token => !e.knows token with
    | some token => simp [eq_comm]
    | none => simp
  reason token := rfl
  answered batch hknown := by
    have hnone : batch.flatten.find? (fun token => !e.knows token) = none :=
      List.find?_eq_none.mpr fun token htoken => by simp [hknown token htoken]
    refine ⟨batch.map (e.output options), ?_, ?_⟩
    · rw [model_eq hfits, hnone]
    · rw [List.forall₂_map_right_iff]
      exact List.forall₂_same.mpr fun source _ => answers_output e options source
  append := model_append hfits
  parts parts := by
    induction parts with
    | nil => rfl
    | cons part rest ih => rw [List.flatten_cons, model_append hfits, ih, List.foldr_cons]

def threeWords : Echo where
  vocabulary := some ["a", "b", "c"]
  vocabularyMap := some ["a", "c"]

def restricted : Options :=
  ⟨{ beamSize := 2, numHypotheses := 3, maxDecodingLength := 2, restrictVocabulary := true,
      returnAttention := true },
    ⟨by decide, by decide, by decide, by decide⟩⟩

theorem itemByItem_restricted :
    fitsMemory
      (min restricted.params.numHypotheses.toNat restricted.params.beamSize.toNat) = true ∧
    (∃ full empty, threeWords.model [["a", "b", "c", "a"], []] restricted =
        .outputs [full, empty] ∧
      full.hypotheses = [["a", "c"], ["c", "a"]] ∧ empty.hypotheses = [[], []]) ∧
    threeWords.model ([["a"]] ++ [["c", "x", "y"]]) restricted =
      .failed (.outsideVocabulary "x") := by
  have hfits : fitsMemory
      (min restricted.params.numHypotheses.toNat restricted.params.beamSize.toNat) = true := by
    decide
  have h := itemByItem threeWords restricted hfits
  obtain ⟨os, hos, hanswers⟩ := h.answered [["a", "b", "c", "a"], []] (by decide)
  refine ⟨hfits, ?_, (h.failed _ _).mpr ⟨"x", by decide, rfl⟩⟩
  cases hanswers with
  | cons hfull hrest =>
    cases hrest with
    | cons hempty hnil =>
      cases hnil
      exact ⟨_, _, hos, hfull.hypotheses.trans (by decide), hempty.hypotheses.trans (by decide)⟩

end Echo

end DecodingDesk.Model

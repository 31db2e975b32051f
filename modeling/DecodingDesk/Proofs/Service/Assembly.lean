import DecodingDesk.Proofs.Document.Chunks
import DecodingDesk.Proofs.Service.Isolation
/-!
# A document from batches

What a document comes to can be said with the calls for batches alone: each chunk is given
to a call, the results are put together up to the first call that fails, and each of their
hypotheses is written as a line.  When a model answers every item as if it were the only
one, it does not matter how the items are cut into chunks.
-/

namespace DecodingDesk

open Document (linePieces rendering scoreText separator)
open Model (Output)
open Text (Bytes encode)

/-- A model that answers a batch, if it answers each of the items alone, with the same answers. -/
def Model.IsItemwise (model : Model) (options : Options) : Prop :=
  ∀ batch os, batch ≠ [] →
    List.Forall₂ (fun item o => model [item] options = .outputs [o]) batch os →
      model batch options = .outputs os

theorem Model.Echo.isItemwise (e : Model.Echo) (options : Options) :
    Model.IsItemwise e.model options := by
  rintro batch os - h
  have houtputs : e.outputs options batch = .ok os := by
    induction h with
    | nil => rfl
    | @cons item o batch os ho _ ih =>
      simp only [model, outputs] at ho ⊢
      cases hknown : e.unknownToken? item with
      | some token => simp [hknown] at ho
      | none =>
        by_cases hfits : fitsMemory (count options)
        · simp only [hknown, hfits, if_true, Except.map, Model.Outcome.outputs.injEq,
            List.cons.injEq, and_true] at ho
          rw [if_pos hfits, ih, ← ho]
          rfl
        · simp [hknown, hfits] at ho
  rw [model, houtputs]

/-! ## The text of results -/

/-- A hypothesis as a line: its tokens with a space between, after the score if that is shown. -/
def Hypothesis.line (withScores : Bool) (h : Hypothesis) : Bytes :=
  (if withScores then encode (scoreText h.score) ++ encode separator else []) ++
    encode (" ".intercalate h.tokens) ++ [Text.lineFeed]

def ItemResult.text (withScores : Bool) (r : ItemResult) : Bytes :=
  r.hypotheses.flatMap (Hypothesis.line withScores)

namespace BatchResult

def text (withScores : Bool) (b : BatchResult) : Bytes :=
  b.results.flatMap (ItemResult.text withScores)

/-- The results of several batches, one after another. -/
def concat (bs : List BatchResult) : BatchResult :=
  ⟨bs.flatMap BatchResult.results⟩

theorem text_concat_cons (withScores : Bool) (b : BatchResult) (bs : List BatchResult) :
    (concat (b :: bs)).text withScores = b.text withScores ++ (concat bs).text withScores := by
  simp only [text, concat, List.flatMap_cons, List.flatMap_append]

theorem length_concat_cons (b : BatchResult) (bs : List BatchResult) :
    (concat (b :: bs)).results.length = b.results.length + (concat bs).results.length := by
  rw [concat, List.flatMap_cons, List.length_append]
  rfl

end BatchResult

theorem flatten_linePieces (withScores : Bool) (h : Hypothesis) :
    (linePieces withScores h.tokens h.score).flatten = h.line withScores := by
  cases withScores <;> simp [linePieces, Hypothesis.line]

theorem ItemResult.text_of_mirrors {allowed : Nat} {r : ItemResult} {o : Output}
    (h : r.Mirrors allowed o) (withScores : Bool) :
    ((o.hypotheses.zip o.scores).flatMap fun (tokens, score) =>
      linePieces withScores tokens score).flatten = r.text withScores := by
  have hzip : o.hypotheses.zip o.scores = r.hypotheses.map fun x => (x.tokens, x.score) := by
    rw [← h.tokens, ← h.scores, List.zip_map']
  rw [hzip, List.flatMap_map, text]
  induction r.hypotheses with
  | nil => rfl
  | cons x xs ih =>
    rw [List.flatMap_cons, List.flatten_append, flatten_linePieces, ih, List.flatMap_cons]

/-- What a task writes for answers is the text of the results that calls build from them. -/
theorem BatchResult.rendering_of_mirrors {allowed : Nat} {b : BatchResult} {os : List Output}
    (h : b.Mirrors allowed os) (withScores : Bool) :
    rendering withScores os = b.text withScores := by
  unfold text
  unfold Mirrors at h
  generalize b.results = results at h ⊢
  induction h with
  | nil => rfl
  | cons hr _ ih =>
    rw [rendering, Document.chunkPieces, List.flatMap_cons, List.flatten_append,
      ItemResult.text_of_mirrors hr, List.flatMap_cons, ← ih]
    rfl

namespace Service

open Document (chunks inTurn)

/-! ## Replies for chunks -/

variable {model : Model} {params : DecodingParams} {options : Options}

/-- What a document comes to by the calls for its chunks: all of them return results, or the
first that does not gives its error, and the text of the results before it is written. -/
inductive Assembled (model : Model) (params : DecodingParams) :
    List Batch → CallReply → Bytes → Prop where
  | all {cs : List Batch} {bs : List BatchResult}
      (hall : List.Forall₂ (fun c b => alone model (some c) params = .ok (.results b)) cs bs) :
      Assembled model params cs (.ok (.lines (BatchResult.concat bs).results.length))
        ((BatchResult.concat bs).text params.withScores)
  | failed {front rest : List Batch} {c : Batch} {bs : List BatchResult} {e : EngineError}
      (hfront : List.Forall₂ (fun c b => alone model (some c) params = .ok (.results b)) front bs)
      (hfailed : alone model (some c) params = .error (.error (.engine e))) :
      Assembled model params (front ++ c :: rest) (.error (.error (.engine e)))
        ((BatchResult.concat bs).text params.withScores)

theorem alone_of_ne_nil (hvalid : Options.validate params = .ok options) {c : Batch}
    (hne : c ≠ []) :
    alone model (some c) params = batchReply (Pool.answerAlone model options c) :=
  alone_of_batch hvalid hne

theorem alone_of_answers (hvalid : Options.validate params = .ok options) {c : Batch}
    (hne : c ≠ []) {os : List Output} (h : Pool.answerAlone model options c = .ok os) :
    ∃ b, alone model (some c) params = .ok (.results b) ∧
      b.Mirrors options.params.numHypotheses.toNat os := by
  obtain ⟨-, -, hconform⟩ := Pool.outputs_of_answerAlone h
  obtain ⟨b, hb, hmirrors⟩ := BatchResult.exists_mirrors hconform
  refine ⟨b, ?_, hmirrors⟩
  rw [alone_of_ne_nil hvalid hne, h, batchReply, hb]

/-- What the caller of a document gets for what the engine says. -/
def linesReply : Except EngineError Nat → CallReply
  | .ok n => .ok (.lines n)
  | .error e => .error (.error (.engine e))

theorem Assembled.cons {c : Batch} {cs : List Batch} {b : BatchResult} {written : Bytes}
    (hc : alone model (some c) params = .ok (.results b)) {n : Except EngineError Nat}
    (h : Assembled model params cs (linesReply n) written) :
    Assembled model params (c :: cs) (linesReply (n.map (b.results.length + ·)))
      (b.text params.withScores ++ written) := by
  generalize hr : linesReply n = reply at h
  cases h with
  | all hall =>
    cases n with
    | error e => cases hr
    | ok count =>
      cases hr
      rw [← BatchResult.text_concat_cons]
      have := Assembled.all (.cons hc hall)
      rw [BatchResult.length_concat_cons] at this
      exact this
  | failed hfront hfailed =>
    cases n with
    | ok count => cases hr
    | error e =>
      cases hr
      rw [← BatchResult.text_concat_cons]
      exact Assembled.failed (.cons hc hfront) hfailed

/-- The chunks taken in turn come to what the calls for them come to. -/
theorem assembled_inTurn (hvalid : Options.validate params = .ok options) {cs : List Batch}
    (hne : ∀ c ∈ cs, c ≠ []) :
    Assembled model params cs (linesReply (inTurn model options params.withScores cs).1)
      (inTurn model options params.withScores cs).2 := by
  induction cs with
  | nil => exact .all .nil
  | cons c cs ih =>
    have hc := hne c List.mem_cons_self
    cases halone : Pool.answerAlone model options c with
    | error e =>
      rw [Document.inTurn_cons_error halone]
      have hfailed : alone model (some c) params = .error (.error (.engine e)) := by
        rw [alone_of_ne_nil hvalid hc, halone]
        rfl
      exact Assembled.failed .nil hfailed
    | ok os =>
      obtain ⟨b, hb, hmirrors⟩ := alone_of_answers hvalid hc halone
      rw [Document.inTurn_cons_ok halone, BatchResult.rendering_of_mirrors hmirrors,
        ← List.Forall₂.length_eq hmirrors]
      exact (ih fun c hc => hne c (List.mem_cons_of_mem _ hc)).cons hb

theorem exists_results_of_mem {cs : List Batch} {bs : List BatchResult}
    (hall : List.Forall₂ (fun c b => alone model (some c) params = .ok (.results b)) cs bs)
    {c : Batch} (hc : c ∈ cs) : ∃ b, alone model (some c) params = .ok (.results b) := by
  induction hall with
  | nil => cases hc
  | cons hb _ ih =>
    rcases List.mem_cons.mp hc with rfl | hc
    · exact ⟨_, hb⟩
    · exact ih hc

/-- A document succeeds if and only if the calls for all of its chunks do. -/
theorem Assembled.ok_iff {cs : List Batch} {r : CallReply} {written : Bytes}
    (h : Assembled model params cs r written) :
    (∃ n, r = .ok (.lines n)) ↔ ∀ c ∈ cs, ∃ b, alone model (some c) params = .ok (.results b) := by
  cases h with
  | all hall => exact ⟨fun _ _ => exists_results_of_mem hall, fun _ => ⟨_, rfl⟩⟩
  | failed _ hfailed =>
    refine ⟨nofun, fun hall => ?_⟩
    obtain ⟨b, hb⟩ := hall _ (List.mem_append_right _ List.mem_cons_self)
    rw [hfailed] at hb
    cases hb

/-- The calls for the chunks settle the document. -/
theorem Assembled.eq_of_all {cs : List Batch} {r : CallReply} {written : Bytes}
    (h : Assembled model params cs r written) {bs : List BatchResult}
    (hall : List.Forall₂ (fun c b => alone model (some c) params = .ok (.results b)) cs bs) :
    r = .ok (.lines (BatchResult.concat bs).results.length) ∧
      written = (BatchResult.concat bs).text params.withScores := by
  cases h with
  | @all _ bs' hall' =>
    have hsame : bs' = bs := by
      induction hall' generalizing bs with
      | nil =>
        cases hall
        rfl
      | cons hc _ ih =>
        cases hall with
        | cons hc' hall =>
          rw [hc] at hc'
          cases hc'
          rw [ih hall]
    exact ⟨by rw [hsame], by rw [hsame]⟩
  | @failed front rest c _ e _ hfailed =>
    obtain ⟨b, hb⟩ := exists_results_of_mem hall (List.mem_append_right _ List.mem_cons_self)
    rw [hfailed] at hb
    cases hb

/-! ## Items one by one -/

/-- An item has a result when it is the only one of its batch. -/
def Yields (model : Model) (params : DecodingParams) (item : Item) (r : ItemResult) : Prop :=
  alone model (some [item]) params = .ok (.results ⟨[r]⟩)

theorem batchReply_eq_ok {reply : Pool.Reply} {b : BatchResult}
    (h : batchReply reply = .ok (.results b)) :
    ∃ os, reply = .ok os ∧ BatchResult.ofOutputs os = .ok b := by
  cases reply with
  | error e => cases h
  | ok os =>
    refine ⟨os, rfl, ?_⟩
    rw [batchReply] at h
    split at h
    · rename_i b' hb
      cases h
      exact hb
    · cases h

/-- What the model has answered for an item that has a result. -/
theorem outputs_of_alone (hvalid : Options.validate params = .ok options) {item : Item}
    {b : BatchResult} (h : alone model (some [item]) params = .ok (.results b)) :
    ∃ o r, model [item] options = .outputs [o] ∧
      o.Conforms options.params.numHypotheses.toNat ∧ ItemResult.ofOutput o = .ok r ∧
        b = ⟨[r]⟩ := by
  rw [alone_of_ne_nil hvalid (List.cons_ne_nil _ _)] at h
  obtain ⟨os, hreply, hb⟩ := batchReply_eq_ok h
  obtain ⟨houtputs, hlength, hconform⟩ := Pool.outputs_of_answerAlone hreply
  obtain ⟨o, rfl⟩ := List.length_eq_one_iff.mp hlength
  obtain ⟨results, hresults, hmatches⟩ := BatchResult.exists_ofOutputs hconform
  rw [hresults] at hb
  cases hb
  cases hmatches with
  | @cons r _ _ _ hr hnil =>
    cases hnil
    exact ⟨o, r, houtputs, hconform o List.mem_cons_self, hr, rfl⟩

theorem exists_yields (hvalid : Options.validate params = .ok options) {items : Batch}
    (h : ∀ item ∈ items, ∃ b, alone model (some [item]) params = .ok (.results b)) :
    ∃ rs, List.Forall₂ (Yields model params) items rs := by
  induction items with
  | nil => exact ⟨[], .nil⟩
  | cons item items ih =>
    obtain ⟨rs, hrs⟩ := ih fun x hx => h x (List.mem_cons_of_mem _ hx)
    obtain ⟨b, hb⟩ := h item List.mem_cons_self
    obtain ⟨o, r, -, -, -, rfl⟩ := outputs_of_alone hvalid hb
    exact ⟨r :: rs, .cons hb hrs⟩

/-- A model that answers each item by itself gives a batch the results of its items. -/
theorem alone_of_yields (hitemwise : Model.IsItemwise model options)
    (hvalid : Options.validate params = .ok options) {c : Batch} (hne : c ≠ [])
    {rs : List ItemResult} (h : List.Forall₂ (Yields model params) c rs) :
    alone model (some c) params = .ok (.results ⟨rs⟩) := by
  obtain ⟨os, houtputs, hconform, hmatches⟩ : ∃ os,
      List.Forall₂ (fun item o => model [item] options = .outputs [o]) c os ∧
        (∀ o ∈ os, o.Conforms options.params.numHypotheses.toNat) ∧
          BatchResult.Matches rs os := by
    clear hne
    induction h with
    | nil => exact ⟨[], .nil, nofun, .nil⟩
    | cons hr _ ih =>
      obtain ⟨os, houtputs, hconform, hmatches⟩ := ih
      obtain ⟨o, r, ho, hc, hof, hr⟩ := outputs_of_alone hvalid hr
      cases hr
      exact ⟨o :: os, .cons ho houtputs, List.forall_mem_cons.mpr ⟨hc, hconform⟩,
        .cons hof hmatches⟩
  have hcheck : Pool.check c.length options.params.numHypotheses.toNat os = .ok os :=
    (Pool.check_eq_ok_iff _ _ _ _).mpr ⟨rfl, houtputs.length_eq.symm, hconform⟩
  have hanswer : Pool.answerAlone model options c = .ok os := by
    rw [Pool.answerAlone, hitemwise c os hne houtputs, Pool.verdict, hcheck]
    rfl
  rw [alone_of_ne_nil hvalid hne, hanswer, batchReply, BatchResult.ofOutputs_of_matches hmatches]

/-- However the items are cut into chunks, their calls return the same results in all. -/
theorem exists_concat (hitemwise : Model.IsItemwise model options)
    (hvalid : Options.validate params = .ok options) {cs : List Batch} (hne : ∀ c ∈ cs, c ≠ [])
    {rs : List ItemResult} (h : List.Forall₂ (Yields model params) cs.flatten rs) :
    ∃ bs, List.Forall₂ (fun c b => alone model (some c) params = .ok (.results b)) cs bs ∧
      BatchResult.concat bs = ⟨rs⟩ := by
  induction cs generalizing rs with
  | nil =>
    cases h
    exact ⟨[], .nil, rfl⟩
  | cons c cs ih =>
    rw [List.flatten_cons] at h
    have hfront := (List.forall₂_take_append rs c _ h.flip).flip
    have hrest := (List.forall₂_drop_append rs c _ h.flip).flip
    obtain ⟨bs, hbs, hconcat⟩ := ih (fun c hc => hne c (List.mem_cons_of_mem _ hc)) hrest
    have hc := alone_of_yields hitemwise hvalid (hne c List.mem_cons_self) hfront
    refine ⟨⟨rs.take c.length⟩ :: bs, .cons hc hbs, ?_⟩
    rw [BatchResult.concat, BatchResult.mk.injEq] at hconcat
    rw [BatchResult.concat, List.flatMap_cons, hconcat, List.take_append_drop]

end Service

end DecodingDesk

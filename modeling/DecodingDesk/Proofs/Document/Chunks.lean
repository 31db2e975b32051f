import DecodingDesk.Document.Sequential
import DecodingDesk.Proofs.Pool.Answers
/-!
# Chunks in turn

Cutting a list into chunks commutes with taking full chunks off its front, and taking
chunks in turn goes on from where the chunks before it ended.  So the chunks that a
task has posted tell what becomes of the whole document as soon as one of them fails,
a line is no text, or there are no more lines.
-/

namespace DecodingDesk.Document

open Model (Output)
open Text (Bytes)

/-! ## Cutting -/

theorem chunks_nil {α : Type} (size : Nat) : chunks size ([] : List α) = [] := by
  rw [chunks, if_pos (.inr rfl)]

theorem chunks_append {α : Type} {size : Nat} (hsize : size ≠ 0) {chunk : List α}
    (hchunk : chunk.length = size) (rest : List α) :
    chunks size (chunk ++ rest) = chunk :: chunks size rest := by
  have hne : chunk ++ rest ≠ [] := by
    intro h
    rw [List.append_eq_nil_iff] at h
    rw [h.1] at hchunk
    exact hsize hchunk.symm
  rw [chunks, if_neg (by simp only [hsize, hne, or_self, not_false_eq_true])]
  rw [← hchunk, List.take_left, List.drop_left]

theorem chunks_flatten_append {α : Type} {size : Nat} (hsize : size ≠ 0)
    {full : List (List α)} (hfull : ∀ chunk ∈ full, chunk.length = size) (rest : List α) :
    chunks size (full.flatten ++ rest) = full ++ chunks size rest := by
  induction full with
  | nil => rfl
  | cons chunk full ih =>
    rw [List.flatten_cons, List.append_assoc, chunks_append hsize (hfull _ List.mem_cons_self),
      ih fun c hc => hfull c (List.mem_cons_of_mem _ hc), List.cons_append]

theorem chunks_eq_singleton {α : Type} {size : Nat} {chunk : List α} (hne : chunk ≠ [])
    (hle : chunk.length ≤ size) : chunks size chunk = [chunk] := by
  have hsize : size ≠ 0 := by
    rintro rfl
    exact hne (List.eq_nil_of_length_eq_zero (Nat.le_zero.mp hle))
  rw [chunks, if_neg (by simp only [hsize, hne, or_self, not_false_eq_true]),
    List.take_of_length_le hle, List.drop_of_length_le hle, chunks_nil]

theorem ne_nil_of_mem_chunks {α : Type} {size : Nat} {items chunk : List α}
    (h : chunk ∈ chunks size items) : chunk ≠ [] := by
  revert h
  fun_induction chunks size items with
  | case1 items hstop => exact fun h => absurd h List.not_mem_nil
  | case2 items hgo ih =>
    intro h
    rcases List.mem_cons.mp h with rfl | h
    · obtain ⟨hsize, hitems⟩ := not_or.mp hgo
      simp [hsize, hitems]
    · exact ih h

theorem length_flatten_of_full {α : Type} {size : Nat} {full : List (List α)}
    (hfull : ∀ chunk ∈ full, chunk.length = size) :
    full.flatten.length = size * full.length := by
  induction full with
  | nil => rfl
  | cons chunk full ih =>
    rw [List.flatten_cons, List.length_append, hfull _ List.mem_cons_self,
      ih fun c hc => hfull c (List.mem_cons_of_mem _ hc), List.length_cons, Nat.mul_succ]
    omega

/-! ## Taking in turn -/

section InTurn

variable {model : Model} {options : Options} {withScores : Bool}

theorem inTurn_cons_ok {chunk : Batch} {os : List Output}
    (h : Pool.answerAlone model options chunk = .ok os) (rest : List Batch) :
    inTurn model options withScores (chunk :: rest) =
      ((inTurn model options withScores rest).1.map (os.length + ·),
        rendering withScores os ++ (inTurn model options withScores rest).2) := by
  rw [inTurn, h]

theorem inTurn_cons_error {chunk : Batch} {e : EngineError}
    (h : Pool.answerAlone model options chunk = .error e) (rest : List Batch) :
    inTurn model options withScores (chunk :: rest) = (.error e, []) := by
  rw [inTurn, h]

theorem inTurn_append {done : List Batch} {n : Nat}
    (h : (inTurn model options withScores done).1 = .ok n) (rest : List Batch) :
    inTurn model options withScores (done ++ rest) =
      ((inTurn model options withScores rest).1.map (n + ·),
        (inTurn model options withScores done).2 ++
          (inTurn model options withScores rest).2) := by
  induction done generalizing n with
  | nil =>
    cases h
    have hid : (fun n : Nat => 0 + n) = id := by
      funext n
      exact Nat.zero_add n
    rw [hid]
    cases hrest : inTurn model options withScores rest with
    | mk result written => cases result <;> simp [inTurn, hrest, Except.map]
  | cons chunk done ih =>
    cases halone : Pool.answerAlone model options chunk with
    | error e =>
      rw [inTurn_cons_error halone] at h
      cases h
    | ok os =>
      rw [inTurn_cons_ok halone] at h ⊢
      cases hdone : (inTurn model options withScores done).1 with
      | error e =>
        rw [hdone] at h
        cases h
      | ok k =>
        rw [hdone] at h
        cases h
        rw [List.cons_append, inTurn_cons_ok halone, ih hdone, List.append_assoc]
        cases (inTurn model options withScores rest).1 with
        | error e => rfl
        | ok j => simp only [Except.map, Nat.add_assoc]

theorem inTurn_concat_ok {done : List Batch} {n : Nat}
    (h : (inTurn model options withScores done).1 = .ok n) {chunk : Batch} {os : List Output}
    (halone : Pool.answerAlone model options chunk = .ok os) :
    inTurn model options withScores (done ++ [chunk]) =
      (.ok (n + os.length),
        (inTurn model options withScores done).2 ++ rendering withScores os) := by
  rw [inTurn_append h, inTurn_cons_ok halone]
  simp [inTurn, Except.map]

theorem inTurn_concat_error {done : List Batch} {n : Nat}
    (h : (inTurn model options withScores done).1 = .ok n) {chunk : Batch} {e : EngineError}
    (halone : Pool.answerAlone model options chunk = .error e) :
    inTurn model options withScores (done ++ [chunk]) =
      (.error e, (inTurn model options withScores done).2) := by
  rw [inTurn_append h, inTurn_cons_error halone]
  simp [Except.map]

theorem inTurn_append_of_error {done : List Batch} {e : EngineError}
    (h : (inTurn model options withScores done).1 = .error e) (rest : List Batch) :
    inTurn model options withScores (done ++ rest) = inTurn model options withScores done := by
  induction done with
  | nil => cases h
  | cons chunk done ih =>
    rw [List.cons_append]
    cases halone : Pool.answerAlone model options chunk with
    | error x => rw [inTurn_cons_error halone, inTurn_cons_error halone]
    | ok os =>
      rw [inTurn_cons_ok halone] at h ⊢
      rw [inTurn_cons_ok halone]
      cases hdone : (inTurn model options withScores done).1 with
      | ok k =>
        rw [hdone] at h
        cases h
      | error x =>
        rw [ih (by rw [hdone] at h; exact hdone.trans h), hdone]

/-- What is written for a chunk that is answered. -/
def rendered (model : Model) (options : Options) (withScores : Bool) (chunk : Batch) : Bytes :=
  rendering withScores ((Pool.answerAlone model options chunk).toOption.getD [])

theorem rendered_of_ok {chunk : Batch} {os : List Output}
    (h : Pool.answerAlone model options chunk = .ok os) :
    rendered model options withScores chunk = rendering withScores os := by
  rw [rendered, h]
  rfl

/-- Either all chunks are answered and written, or the first that fails ends the matter. -/
theorem inTurn_cases (model : Model) (options : Options) (withScores : Bool)
    (chunks : List Batch) :
    ((∀ chunk ∈ chunks, ∃ os, Pool.answerAlone model options chunk = .ok os) ∧
        inTurn model options withScores chunks =
          (.ok chunks.flatten.length, chunks.flatMap (rendered model options withScores))) ∨
      ∃ front chunk rest e, chunks = front ++ chunk :: rest ∧
        (∀ b ∈ front, ∃ os, Pool.answerAlone model options b = .ok os) ∧
        Pool.answerAlone model options chunk = .error e ∧
        inTurn model options withScores chunks =
          (.error e, front.flatMap (rendered model options withScores)) := by
  induction chunks with
  | nil => exact .inl ⟨fun chunk hc => absurd hc List.not_mem_nil, rfl⟩
  | cons chunk rest ih =>
    cases halone : Pool.answerAlone model options chunk with
    | error e =>
      refine .inr ⟨[], chunk, rest, e, rfl, fun b hb => absurd hb List.not_mem_nil, halone, ?_⟩
      rw [inTurn_cons_error halone, List.flatMap_nil]
    | ok os =>
      rw [inTurn_cons_ok halone]
      rcases ih with ⟨hall, hturn⟩ | ⟨front, failed, tail, e, hcut, hall, hfailed, hturn⟩
      · refine .inl ⟨List.forall_mem_cons.mpr ⟨⟨os, halone⟩, hall⟩, ?_⟩
        rw [hturn, List.flatten_cons, List.length_append, List.flatMap_cons,
          rendered_of_ok halone, (Pool.outputs_of_answerAlone halone).2.1]
        rfl
      · refine .inr ⟨chunk :: front, failed, tail, e, by rw [hcut, List.cons_append],
          List.forall_mem_cons.mpr ⟨⟨os, halone⟩, hall⟩, hfailed, ?_⟩
        rw [hturn, List.flatMap_cons, rendered_of_ok halone]
        rfl

end InTurn

/-! ## Lines that have been read -/

/-- The items of lines, if all of them are texts. -/
def itemsOf? (lines : List Bytes) : Option Batch :=
  lines.mapM fun line => (Text.decode line).map Text.words

theorem itemsOf?_append {read : List Bytes} {items : Batch} (h : itemsOf? read = some items)
    (rest : List Bytes) : itemsOf? (read ++ rest) = (itemsOf? rest).map (items ++ ·) := by
  unfold itemsOf? at h ⊢
  rw [List.mapM_append, h]
  cases List.mapM (fun line => (Text.decode line).map Text.words) rest <;> rfl

theorem itemsOf?_concat {read : List Bytes} {items : Batch} (h : itemsOf? read = some items)
    {line : Bytes} {text : String} (hline : Text.decode line = some text) :
    itemsOf? (read ++ [line]) = some (items ++ [Text.words text]) := by
  rw [itemsOf?_append h]
  simp [itemsOf?, hline]

theorem itemsOf?_cons_invalid {line : Bytes} (hline : Text.decode line = none)
    (rest : List Bytes) : itemsOf? (line :: rest) = none := by
  simp [itemsOf?, hline]

theorem length_of_itemsOf? {lines : List Bytes} {items : Batch}
    (h : itemsOf? lines = some items) : items.length = lines.length := by
  induction lines generalizing items with
  | nil =>
    cases h
    rfl
  | cons line rest ih =>
    cases hline : Text.decode line with
    | none =>
      rw [itemsOf?_cons_invalid hline] at h
      cases h
    | some text =>
      have hone : itemsOf? [line] = some [Text.words text] := by simp [itemsOf?, hline]
      have happend := itemsOf?_append hone rest
      rw [List.singleton_append, h] at happend
      obtain ⟨tail, htail, rfl⟩ := Option.map_eq_some_iff.mp happend.symm
      simp [ih htail]

theorem leading_append {read : List Bytes} {items : Batch} (h : itemsOf? read = some items)
    (rest : List Bytes) : leading (read ++ rest) = items ++ leading rest := by
  induction read generalizing items with
  | nil =>
    cases h
    rfl
  | cons line read ih =>
    cases hline : Text.decode line with
    | none =>
      rw [itemsOf?_cons_invalid hline] at h
      cases h
    | some text =>
      have hone : itemsOf? [line] = some [Text.words text] := by simp [itemsOf?, hline]
      have happend := itemsOf?_append hone read
      rw [List.singleton_append, h] at happend
      obtain ⟨tail, htail, rfl⟩ := Option.map_eq_some_iff.mp happend.symm
      rw [List.cons_append, leading, hline]
      simp [ih htail]

theorem leading_of_itemsOf? {lines : List Bytes} {items : Batch}
    (h : itemsOf? lines = some items) : leading lines = items := by
  have hlead := leading_append h []
  rwa [List.append_nil, leading, List.append_nil] at hlead

theorem length_leading_le (lines : List Bytes) : (leading lines).length ≤ lines.length := by
  induction lines with
  | nil => exact Nat.le_refl _
  | cons line rest ih =>
    unfold leading
    split
    · exact Nat.zero_le _
    · exact Nat.succ_le_succ ih

/-- If as many items as lines lead, all lines are texts. -/
theorem itemsOf?_of_length_leading {lines : List Bytes}
    (h : lines.length ≤ (leading lines).length) : itemsOf? lines = some (leading lines) := by
  induction lines with
  | nil => rfl
  | cons line rest ih =>
    unfold leading at h ⊢
    cases hline : Text.decode line with
    | none =>
      rw [hline] at h
      cases h
    | some text =>
      rw [hline] at h
      have hone : itemsOf? [line] = some [Text.words text] := by simp [itemsOf?, hline]
      rw [← List.singleton_append, itemsOf?_append hone, ih (Nat.le_of_succ_le_succ h)]
      rfl

/-! ## Chunks that are waited for -/

section Awaited

variable {model : Model} {request : Request} {size : Nat} {content : Bytes}

theorem sequential_of_error {front : List Batch} {e : EngineError}
    (hfront : front <+: awaited request size content)
    (h : (inTurn model request.options request.withScores front).1 = .error e) :
    sequential model request size content =
      (.error (.engine e), (inTurn model request.options request.withScores front).2) := by
  obtain ⟨rest, hrest⟩ := hfront
  unfold sequential
  rw [← hrest, inTurn_append_of_error h]
  split
  · rename_i x written heq
    rw [heq] at h ⊢
    cases h
    rfl
  · rename_i n written heq
    rw [heq] at h
    cases h

theorem sequential_of_ok {n : Nat}
    (h : (inTurn model request.options request.withScores
      (awaited request size content)).1 = .ok n) :
    sequential model request size content =
      (if (items? content).isSome then .ok n else .error (.io request.input .invalidUtf8),
        (inTurn model request.options request.withScores (awaited request size content)).2) := by
  unfold sequential
  split
  · rename_i x written heq
    rw [heq] at h
    cases h
  · rename_i k written heq
    rw [heq] at h ⊢
    cases h
    rfl

/-- Full chunks that have been posted in a window are waited for, but for the last of them. -/
theorem isPrefix_awaited (hsize : request.batchSize ≠ 0) {read rest : List Bytes}
    (hlines : Text.lines content = read ++ rest) {full : List Batch} {chunk : Batch}
    (hread : itemsOf? read = some (full.flatten ++ chunk))
    (hfull : ∀ b ∈ full, b.length = request.batchSize) {front : List Batch}
    (hfront : front <+: full) (hwindow : front.length + 2 * size ≤ full.length + 1) :
    front <+: awaited request size content := by
  have hitems : items? content = (itemsOf? rest).map (full.flatten ++ chunk ++ ·) := by
    change itemsOf? (Text.lines content) = _
    rw [hlines, itemsOf?_append hread]
  unfold awaited
  rw [hitems]
  cases itemsOf? rest with
  | some items =>
    simp only [Option.map_some, List.append_assoc]
    rw [chunks_flatten_append hsize hfull]
    exact hfront.trans (List.prefix_append _ _)
  | none =>
    simp only [Option.map_none]
    rw [hlines, leading_append hread, List.append_assoc, chunks_flatten_append hsize hfull]
    have hcount : full.length ≤
        (full.flatten ++ (chunk ++ leading rest)).length / request.batchSize := by
      rw [Nat.le_div_iff_mul_le (Nat.pos_of_ne_zero hsize), List.length_append,
        length_flatten_of_full hfull, Nat.mul_comm]
      omega
    rw [List.prefix_take_iff]
    refine ⟨hfront.trans (List.prefix_append _ _), ?_⟩
    omega

/-- When a line is no text, what was to be waited for is a front of the posted chunks. -/
theorem awaited_of_invalid (hsize : 0 < size) (hbatch : request.batchSize ≠ 0)
    {read rest : List Bytes} {line : Bytes} (hlines : Text.lines content = read ++ line :: rest)
    (hline : Text.decode line = none) {full : List Batch} {chunk : Batch}
    (hread : itemsOf? read = some (full.flatten ++ chunk))
    (hfull : ∀ b ∈ full, b.length = request.batchSize)
    (hchunk : chunk.length < request.batchSize) :
    items? content = none ∧
      awaited request size content = full.take (full.length + 1 - 2 * size) := by
  have hitems : items? content = none := by
    change itemsOf? (Text.lines content) = _
    rw [hlines, itemsOf?_append hread, itemsOf?_cons_invalid hline]
    rfl
  refine ⟨hitems, ?_⟩
  have hlead : leading (line :: rest) = [] := by
    rw [leading, hline]
  have hcount : (full.flatten ++ chunk).length / request.batchSize = full.length := by
    rw [List.length_append, length_flatten_of_full hfull, Nat.mul_add_div (by omega),
      Nat.div_eq_of_lt hchunk, Nat.add_zero]
  unfold awaited
  rw [hitems]
  simp only
  rw [hlines, leading_append hread, hlead, List.append_nil, hcount,
    chunks_flatten_append hbatch hfull, List.take_append_of_le_length (by omega)]

/-- What a document comes to, and what is written for it: the number of its lines and all of
its chunks, or the error of the first chunk that fails and the chunks before it, or an error
for a line that is no text and the chunks that had to be waited for by then. -/
inductive InOneGo (model : Model) (request : Request) (size : Nat) (content : Bytes) :
    Except Error Nat → Bytes → Prop where
  | complete {items : Batch} (hitems : items? content = some items)
      (hanswered : ∀ chunk ∈ chunks request.batchSize items,
        ∃ os, Pool.answerAlone model request.options chunk = .ok os) :
      InOneGo model request size content (.ok (Text.lines content).length)
        ((chunks request.batchSize items).flatMap
          (rendered model request.options request.withScores))
  | failed {front rest : List Batch} {chunk : Batch} {e : EngineError}
      (hawaited : awaited request size content = front ++ chunk :: rest)
      (hanswered : ∀ b ∈ front, ∃ os, Pool.answerAlone model request.options b = .ok os)
      (hfailed : Pool.answerAlone model request.options chunk = .error e) :
      InOneGo model request size content (.error (.engine e))
        (front.flatMap (rendered model request.options request.withScores))
  | invalid (hitems : items? content = none)
      (hanswered : ∀ chunk ∈ awaited request size content,
        ∃ os, Pool.answerAlone model request.options chunk = .ok os) :
      InOneGo model request size content (.error (.io request.input .invalidUtf8))
        ((awaited request size content).flatMap
          (rendered model request.options request.withScores))

theorem inOneGo_sequential (hbatch : request.batchSize ≠ 0) (model : Model) (size : Nat)
    (content : Bytes) :
    InOneGo model request size content (sequential model request size content).1
      (sequential model request size content).2 := by
  rcases inTurn_cases model request.options request.withScores (awaited request size content) with
    ⟨hall, hturn⟩ | ⟨front, chunk, rest, e, hcut, hall, hfailed, hturn⟩
  · rw [sequential_of_ok (congrArg Prod.fst hturn), hturn]
    cases hitems : items? content with
    | none => exact .invalid hitems hall
    | some items =>
      have hawaited : awaited request size content = chunks request.batchSize items := by
        rw [awaited, hitems]
      have hcount : items.length = (Text.lines content).length := length_of_itemsOf? hitems
      rw [hawaited, flatten_chunks hbatch, hcount]
      rw [hawaited] at hall
      exact .complete hitems hall
  · rw [sequential_of_error (List.prefix_refl _) (congrArg Prod.fst hturn), hturn]
    exact .failed hcut hall hfailed

end Awaited

end DecodingDesk.Document

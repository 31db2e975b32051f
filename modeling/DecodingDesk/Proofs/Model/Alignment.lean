import DecodingDesk.Proofs.Model.ItemByItem
/-!
# Where the echo model's attention points

A token of a hypothesis comes from a place in the source, but its row of attention is looked up
by its text.  So all weight of the row is on the first source token with that text, which is the
place it comes from exactly if the text does not stand before it.  Without repeated tokens every
row points at where its token comes from; with repeated ones some row does not.
-/

namespace DecodingDesk.Model.Echo

variable {e : Echo} {options : Options} {source : Item} {token : String}

/-! ## Rows -/

/-- A row with all weight on one place. -/
def pointer (width place : Nat) : List Float32 :=
  (List.range width).map fun i => if i = place then 1 else 0

theorem pointer_inj {width place other : Nat} (hplace : place < width)
    (h : pointer width place = pointer width other) : place = other := by
  have hentry := congrArg (·[place]?) h
  simp only [pointer, List.getElem?_map, List.getElem?_range hplace, Option.map_some,
    if_true] at hentry
  by_contra hne
  rw [if_neg hne] at hentry
  exact absurd (Option.some.inj hentry) (by decide)

/-- A token's row points at the first source token of the same text. -/
theorem alignRow_eq_pointer (h : token ∈ source) :
    alignRow source token = pointer source.length (source.idxOf token) := by
  have hfirst : source.idxOf? token = some (source.idxOf token) :=
    List.findIdx?_eq_some_of_exists ⟨token, h, beq_self_eq_true token⟩
  simp only [alignRow, pointer, hfirst, Option.some.injEq, eq_comm]

/-- A place is the first with its token exactly if the token does not stand before it. -/
theorem idxOf_eq_iff {place : Nat} (hplace : source[place]? = some token) :
    source.idxOf token = place ↔ token ∉ source.take place := by
  obtain ⟨hlt, hget⟩ := List.getElem?_eq_some_iff.mp hplace
  rw [List.idxOf, List.findIdx_eq hlt]
  constructor
  · rintro ⟨-, hbefore⟩ hmem
    obtain ⟨j, hj, hjt⟩ := List.mem_take_iff_getElem.mp hmem
    have hne := hbefore j (by omega)
    simp [hjt] at hne
  · intro hnot
    refine ⟨by simp [hget], fun j hj => beq_eq_false_iff_ne.mpr fun heq => hnot ?_⟩
    exact List.mem_take_iff_getElem.mpr ⟨j, by omega, heq⟩

/-- How the row of a token that comes from a place points. -/
structure Points (source : Item) (place : Nat) (token : String) (row : List Float32) : Prop where
  comes : source[place]? = some token
  row_eq : row = pointer source.length (source.idxOf token)
  eq_pointer_iff : row = pointer source.length place ↔ token ∉ source.take place

theorem points_alignRow {place : Nat} (hplace : source[place]? = some token) :
    Points source place token (alignRow source token) := by
  have hmem : token ∈ source := List.mem_of_getElem? hplace
  refine ⟨hplace, alignRow_eq_pointer hmem, ?_⟩
  rw [alignRow_eq_pointer hmem, ← idxOf_eq_iff hplace]
  exact ⟨pointer_inj (List.idxOf_lt_length_of_mem hmem), fun h => by rw [h]⟩

/-- A token that is not repeated does not stand before its place. -/
theorem Points.eq_pointer_of_nodup {place : Nat} {row : List Float32}
    (h : Points source place token row) (hnodup : source.Nodup) :
    row = pointer source.length place := by
  obtain ⟨hlt, hget⟩ := List.getElem?_eq_some_iff.mp h.comes
  rw [h.row_eq, ← hget, hnodup.idxOf_getElem place hlt]

/-! ## Matrices -/

/-- Where the token at a place of a hypothesis comes from. -/
def origin (source : Item) (rank place : Nat) : Nat :=
  (place + rank) % source.length

/-- Whether every row of a matrix points at where its token comes from. -/
def Aligned (source : Item) (rank : Nat) (m : Matrix) : Prop :=
  ∀ (i : Nat) (row : List Float32), m[i]? = some row →
    row = pointer source.length (origin source rank i)

/-- What the matrix for the tokens of a hypothesis is like that nothing restricts. -/
structure Traces (source : Item) (rank : Nat) (tokens : Item) (m : Matrix) : Prop where
  length_eq : m.length = tokens.length
  points : ∀ (i : Nat) (token : String) (row : List Float32), tokens[i]? = some token →
    m[i]? = some row → Points source (origin source rank i) token row
  /-- Without repeated tokens every row points at where its token comes from. -/
  aligned : source.Nodup → Aligned source rank m
  /-- With repeated tokens some row does not, unless the hypothesis is cut. -/
  nodup : tokens.length = source.length → Aligned source rank m → source.Nodup

/-- The tokens of a hypothesis come from their origins. -/
theorem getElem?_origin {rank i limit : Nat}
    (h : ((source.rotate rank).take limit)[i]? = some token) :
    source[origin source rank i]? = some token := by
  have hrotate : (source.rotate rank)[i]? = some token := by
    rw [List.getElem?_take] at h
    split at h
    · exact h
    · cases h
  have hlt := (List.getElem?_eq_some_iff.mp hrotate).1
  rw [List.length_rotate] at hlt
  rw [origin, ← List.getElem?_rotate hlt, hrotate]

/-- Every place of a source is the origin of some place. -/
theorem exists_origin_eq (rank : Nat) {place : Nat} (h : place < source.length) :
    ∃ i < source.length, origin source rank i = place := by
  have hrank := Nat.mod_lt rank (Nat.zero_lt_of_lt h)
  refine ⟨(place + (source.length - rank % source.length)) % source.length,
    Nat.mod_lt _ (Nat.zero_lt_of_lt h), ?_⟩
  calc origin source rank ((place + (source.length - rank % source.length)) % source.length)
      = (place + (source.length - rank % source.length) + rank % source.length) %
          source.length := by rw [origin, Nat.mod_add_mod, ← Nat.add_mod_mod]
    _ = (place + source.length) % source.length := by congr 1; omega
    _ = place := by rw [Nat.add_mod_right, Nat.mod_eq_of_lt h]

theorem nodup_of_not_mem_take
    (h : ∀ (place : Nat) (token : String), source[place]? = some token →
      token ∉ source.take place) : source.Nodup := by
  rw [List.nodup_iff_getElem?_ne_getElem?]
  intro i j hij hj heq
  refine h j source[j] (List.getElem?_eq_getElem hj) (List.mem_take_iff_getElem.mpr ⟨i, by omega, ?_⟩)
  rw [List.getElem?_eq_getElem (by omega), List.getElem?_eq_getElem hj] at heq
  exact Option.some.inj heq

theorem traces_align (source : Item) (rank limit : Nat) :
    Traces source rank ((source.rotate rank).take limit)
      (align source ((source.rotate rank).take limit)) := by
  have hpoints : ∀ (i : Nat) (token : String) (row : List Float32),
      ((source.rotate rank).take limit)[i]? = some token →
        (align source ((source.rotate rank).take limit))[i]? = some row →
          Points source (origin source rank i) token row := by
    intro i token row htoken hrow
    rw [align, List.getElem?_map, htoken] at hrow
    cases hrow
    exact points_alignRow (getElem?_origin htoken)
  refine ⟨List.length_map _, hpoints, ?_, ?_⟩
  · intro hnodup i row hrow
    have hmap := hrow
    rw [align, List.getElem?_map, Option.map_eq_some_iff] at hmap
    obtain ⟨token, htoken, -⟩ := hmap
    exact (hpoints i token row htoken hrow).eq_pointer_of_nodup hnodup
  · intro hwhole haligned
    refine nodup_of_not_mem_take fun place token htoken => ?_
    obtain ⟨hlt, -⟩ := List.getElem?_eq_some_iff.mp htoken
    obtain ⟨i, hi, rfl⟩ := exists_origin_eq rank hlt
    have hcut : i < ((source.rotate rank).take limit).length := hwhole ▸ hi
    have hrow := List.getElem?_eq_getElem (l := align source ((source.rotate rank).take limit))
      (by rw [align, List.length_map]; exact hcut)
    have h := hpoints i _ _ (List.getElem?_eq_getElem hcut) hrow
    obtain rfl : token = _ := Option.some.inj (htoken.symm.trans h.comes)
    exact h.eq_pointer_iff.mp (haligned i _ hrow)

/-! ## Answers -/

/-- What a batch is answered with, if it is answered. -/
theorem eq_map_output {batch : Batch} {os : List Output}
    (h : e.model batch options = .outputs os) : os = batch.map (e.output options) := by
  by_cases hfits : fitsMemory (count options) = true
  · rw [model_eq hfits] at h
    split at h <;> cases h
    rfl
  · cases batch with
    | nil =>
      cases h
      rfl
    | cons source rest =>
      -- without room for the hypotheses the first item ends the call
      rw [model, outputs, if_neg hfits] at h
      cases hknown : e.unknownToken? source <;>
      · rw [hknown] at h
        cases h

/-- The attention for a source has a matrix for each rank, which traces the hypothesis of that
rank. -/
def Attends (options : Options) (source : Item) (o : Output) : Prop :=
  ∃ ms, o.attention = some ms ∧ ms.length = o.hypotheses.length ∧
    o.hypotheses.length =
      min options.params.numHypotheses.toNat options.params.beamSize.toNat ∧
    ∀ (rank : Nat) (tokens : Item) (m : Matrix), o.hypotheses[rank]? = some tokens →
      ms[rank]? = some m → Traces source rank tokens m

theorem attends_output (hwanted : options.params.returnAttention = true)
    (hfree : options.params.restrictVocabulary = false ∨ e.vocabularyMap = none)
    (source : Item) : Attends options source (e.output options source) := by
  refine ⟨(e.output options source).hypotheses.map (align source), ?_, List.length_map _, ?_, ?_⟩
  · simp only [output, if_pos hwanted]
  · simp only [output, count, List.length_map, List.length_range]
  · intro rank tokens m htokens hm
    rw [List.getElem?_map, htokens] at hm
    cases hm
    simp only [output, List.getElem?_map, Option.map_eq_some_iff] at htokens
    obtain ⟨k, hk, rfl⟩ := htokens
    obtain ⟨hlt, rfl⟩ := List.getElem?_eq_some_iff.mp hk
    rw [List.getElem_range, hypothesis_of_free hfree]
    exact traces_align source rank _

/-- Whenever the model answers with attention that nothing restricts, all weight of a row is on
the first source token with the text of its token.  That is where the token comes from exactly if
its text does not stand before.  So a whole matrix points at where its tokens come from if no
token of the source is repeated, and only then unless the hypothesis is cut. -/
theorem points_at_first {batch : Batch} {os : List Output}
    (h : e.model batch options = .outputs os) (hwanted : options.params.returnAttention = true)
    (hfree : options.params.restrictVocabulary = false ∨ e.vocabularyMap = none) :
    List.Forall₂ (Attends options) batch os := by
  rw [eq_map_output h, List.forall₂_map_right_iff]
  exact List.forall₂_same.mpr fun source _ => attends_output hwanted hfree source

/-- Two hypotheses and their attention. -/
def attentive : Options :=
  ⟨{ numHypotheses := 2, returnAttention := true },
    ⟨by decide, by decide, by decide, by decide⟩⟩

/-- The second token of this source repeats the first, and so does its row. -/
theorem points_at_first_repeated : ∃ o,
    Echo.model {} [["a", "a", "b"]] attentive = .outputs [o] ∧
    o.hypotheses = [["a", "a", "b"], ["a", "b", "a"]] ∧
    o.attention = some [[pointer 3 0, pointer 3 0, pointer 3 2],
      [pointer 3 0, pointer 3 2, pointer 3 0]] ∧ Attends attentive ["a", "a", "b"] o := by
  have hanswer : Echo.model {} [["a", "a", "b"]] attentive =
      .outputs [Echo.output {} attentive ["a", "a", "b"]] := rfl
  have hforall := points_at_first hanswer rfl (.inl rfl)
  cases hforall with
  | cons hattends _ => exact ⟨_, hanswer, by decide, by decide, hattends⟩

/-- Attention that nothing restricts need not point at where tokens come from. -/
theorem not_aligned_of_answered : ¬ ∀ (e : Echo) (options : Options) (source : Item) (o : Output)
    (ms : List Matrix) (rank : Nat) (m : Matrix), options.params.returnAttention = true →
      (options.params.restrictVocabulary = false ∨ e.vocabularyMap = none) →
      e.model [source] options = .outputs [o] → o.attention = some ms → ms[rank]? = some m →
        Aligned source rank m := by
  intro h
  have haligned := h {} attentive ["a", "a"] (Echo.output {} attentive ["a", "a"]) _ 0 _ rfl
    (.inl rfl) rfl rfl rfl 1 _ rfl
  exact absurd haligned (by decide)

end DecodingDesk.Model.Echo

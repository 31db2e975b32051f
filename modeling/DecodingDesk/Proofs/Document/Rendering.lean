import Mathlib.Data.List.Infix
import DecodingDesk.Proofs.Document.Chunks
import DecodingDesk.Proofs.Text.Lines
import DecodingDesk.Proofs.Text.Words
/-!
# Reading lines of output

What is written for hypotheses whose tokens are words is read back as these hypotheses by the
rules for the lines of an input.  A score in front is told from the tokens, since no score has a
space in it.
-/

namespace DecodingDesk

open Text (Bytes IsWord encode isBlank)

/-! ## Scores -/

namespace Decimal

theorem isBlank_digitChar (d : Digit) : isBlank d.char = false := by
  revert d
  decide

/-- A numeral has no blank in it. -/
theorem Numeral.not_isBlank_of_mem_chars {n : Numeral} {c : Char} (h : c ∈ n.chars) :
    isBlank c = false := by
  have hdigits : ∀ {ds : List Digit}, c ∈ ds.map Digit.char → isBlank c = false := by
    intro ds hc
    obtain ⟨d, -, rfl⟩ := List.mem_map.mp hc
    exact isBlank_digitChar d
  simp only [chars, List.mem_append] at h
  rcases h with ((h | h) | h) | h
  · split at h
    · rw [List.mem_singleton.mp h]
      rfl
    · cases h
  · exact hdigits h
  · split at h
    · cases h
    · rcases List.mem_cons.mp h with rfl | h
      · rfl
      · exact hdigits h
  · split at h
    · cases h
    · rcases List.mem_cons.mp h with rfl | h
      · rfl
      rcases List.mem_cons.mp h with rfl | h
      · split <;> rfl
      · exact hdigits h

end Decimal

namespace Document

open Model (Output)

theorem not_isBlank_of_mem_scoreText {x : Float32} {c : Char} (h : c ∈ (scoreText x).toList) :
    isBlank c = false := by
  have hword : ∀ word ∈ ["NaN", "-inf", "inf"], word.toList.all (!isBlank ·) = true := by decide
  unfold scoreText at h
  split at h
  · rw [Decimal.Numeral.text, String.toList_ofList] at h
    exact Decimal.Numeral.not_isBlank_of_mem_chars h
  · repeat' split at h
    all_goals simpa using List.all_eq_true.mp (hword _ (by simp)) c h

/-! ## Lines -/

/-- The text of a line. -/
def lineText (withScores : Bool) (tokens : Item) (score : Float32) : String :=
  (if withScores then scoreText score ++ separator else "") ++ " ".intercalate tokens

theorem flatten_linePieces_eq (withScores : Bool) (tokens : Item) (score : Float32) :
    (linePieces withScores tokens score).flatten =
      encode (lineText withScores tokens score) ++ [Text.lineFeed] := by
  cases withScores <;> simp [linePieces, lineText, Text.encode_append]

/-- The hypotheses that have a line, with their scores. -/
def scored (os : List Output) : List (Item × Float32) :=
  os.flatMap fun o => o.hypotheses.zip o.scores

theorem rendering_eq_flatMap (withScores : Bool) (os : List Output) :
    rendering withScores os =
      ((scored os).map fun h => encode (lineText withScores h.1 h.2)).flatMap
        (· ++ [Text.lineFeed]) := by
  simp only [rendering, chunkPieces, scored, ← flatten_linePieces_eq, List.flatMap_def,
    List.flatten_flatten, List.map_flatten, List.map_map, Function.comp_def]

/-- Whether all tokens of the hypotheses are words. -/
def Worded (os : List Output) : Prop :=
  ∀ o ∈ os, ∀ tokens ∈ o.hypotheses, ∀ token ∈ tokens, IsWord token

variable {withScores : Bool} {os : List Output}

theorem Worded.isWord (h : Worded os) {tokens : Item} {score : Float32}
    (hmem : (tokens, score) ∈ scored os) : ∀ token ∈ tokens, IsWord token := by
  obtain ⟨o, ho, hzip⟩ := List.mem_flatMap.mp hmem
  exact h o ho tokens (List.of_mem_zip hzip).1

/-- The only blanks in a line are spaces. -/
theorem eq_space_of_mem_lineText {tokens : Item} {score : Float32}
    (hwords : ∀ token ∈ tokens, IsWord token) {c : Char}
    (hc : c ∈ (lineText withScores tokens score).toList) (hblank : isBlank c = true) :
    c = ' ' := by
  have hseparator : separator.toList.all (fun c => !isBlank c || c == ' ') = true := by decide
  rw [lineText, String.toList_append, List.mem_append] at hc
  rcases hc with hc | hc
  · split at hc
    · rw [String.toList_append, List.mem_append] at hc
      rcases hc with hc | hc
      · rw [not_isBlank_of_mem_scoreText hc] at hblank
        cases hblank
      · simpa [hblank] using List.all_eq_true.mp hseparator c hc
    · simp at hc
  · exact Text.eq_space_of_mem_intercalate hwords hc hblank

theorem lines_rendering (h : Worded os) :
    Text.lines (rendering withScores os) =
      (scored os).map fun h => encode (lineText withScores h.1 h.2) := by
  rw [rendering_eq_flatMap]
  refine Text.lines_flatMap fun line hline => ?_
  obtain ⟨⟨tokens, score⟩, hmem, rfl⟩ := List.mem_map.mp hline
  have hblank : ∀ c : Char, c.toNat < 128 → isBlank c = true → c ≠ ' ' →
      UInt8.ofNat c.toNat ∉ encode (lineText withScores tokens score) :=
    fun c hascii hc hne hbyte => hne (eq_space_of_mem_lineText (h.isWord hmem)
      (Text.mem_toList_of_mem_encode hascii hbyte) hc)
  exact ⟨hblank '\n' (by decide) (by decide) (by decide),
    hblank '\r' (by decide) (by decide) (by decide)⟩

/-! ## Reading back -/

theorem itemsOf?_map_encode (texts : List String) :
    itemsOf? (texts.map encode) = some (texts.map Text.words) := by
  have hread : ∀ text, ((Text.decode (encode text)).map Text.words) = some (Text.words text) :=
    fun text => by rw [Text.decode_encode, Option.map_some]
  rw [itemsOf?, List.mapM_map]
  simp only [Function.comp_def, hread]
  exact List.mapM_pure

theorem exists_itemsOf?_eq {lines : List Bytes}
    (h : ∀ line ∈ lines, ∃ text, Text.decode line = some text) :
    ∃ items, itemsOf? lines = some items := by
  induction lines with
  | nil => exact ⟨[], rfl⟩
  | cons line lines ih =>
    obtain ⟨⟨text, hline⟩, hrest⟩ := List.forall_mem_cons.mp h
    obtain ⟨items, hitems⟩ := ih hrest
    have hone : itemsOf? [line] = some [Text.words text] := by simp [itemsOf?, hline]
    exact ⟨_, by rw [← List.singleton_append, itemsOf?_append hone, hitems, Option.map_some]⟩

/-- All lines of a text are texts, so that its items can be read. -/
theorem exists_items?_encode (text : String) : ∃ items, items? (encode text) = some items := by
  refine exists_itemsOf?_eq fun line hline => ?_
  obtain ⟨t, rfl⟩ := Text.exists_eq_encode_of_mem_lines hline
  exact ⟨t, Text.decode_encode t⟩

theorem exists_eq_words_of_mem_leading {lines : List Bytes} {item : Item}
    (h : item ∈ leading lines) : ∃ text, item = Text.words text := by
  induction lines with
  | nil => cases h
  | cons line lines ih =>
    unfold leading at h
    split at h
    · cases h
    · rcases List.mem_cons.mp h with rfl | h
      · exact ⟨_, rfl⟩
      · exact ih h

/-- Every token of an item that was read is a word. -/
theorem isWord_of_items? {content : Bytes} {items : Batch} (h : items? content = some items) :
    ∀ item ∈ items, ∀ token ∈ item, IsWord token := by
  intro item hitem token htoken
  have hlead : leading (Text.lines content) = items := leading_of_itemsOf? h
  obtain ⟨text, rfl⟩ := exists_eq_words_of_mem_leading (hlead ▸ hitem)
  exact Text.isWord_of_mem_words htoken

/-- Lines without scores are read back as the hypotheses. -/
theorem items?_rendering (h : Worded os)
    (hscores : ∀ o ∈ os, o.scores.length = o.hypotheses.length) :
    items? (rendering false os) = some (os.flatMap Output.hypotheses) := by
  have hwords : ((scored os).map fun h => lineText false h.1 h.2).map Text.words =
      (scored os).map Prod.fst := by
    rw [List.map_map]
    refine List.map_congr_left fun ⟨tokens, score⟩ hmem => ?_
    rw [Function.comp_apply, lineText, if_neg Bool.false_ne_true, String.empty_append,
      Text.words_intercalate (h.isWord hmem)]
  have hfirst : (scored os).map Prod.fst = os.flatMap Output.hypotheses := by
    rw [scored, List.map_flatMap]
    refine List.flatMap_congr fun o ho => List.map_fst_zip (Nat.le_of_eq (hscores o ho).symm)
  change itemsOf? (Text.lines (rendering false os)) = _
  have hlines : (scored os).map (fun h => encode (lineText false h.1 h.2)) =
      ((scored os).map fun h => lineText false h.1 h.2).map encode := by
    rw [List.map_map]
    rfl
  rw [lines_rendering h, hlines, itemsOf?_map_encode, hwords, hfirst]

/-! ## Cutting off scores -/

/-- What stands in a line after the first bars. -/
def afterBars? (line : Bytes) : Option Bytes :=
  (line.dropInfix? (encode separator)).map Prod.snd

/-- A pattern is found first behind what its first element is not in. -/
theorem dropInfix?_append {b : UInt8} {front pattern : Bytes} (h : b ∉ front) (rest : Bytes) :
    (front ++ (b :: pattern) ++ rest).dropInfix? (b :: pattern) = some (front, rest) := by
  rw [List.dropInfix?_eq_some_iff]
  refine ⟨⟨_, rfl, beq_self_eq_true _⟩, fun other found tail heq hfound => ?_⟩
  rw [eq_of_beq hfound] at heq
  by_contra hlt
  have hget := congrArg (·[other.length]?) heq
  simp only [List.append_assoc, List.getElem?_append_left (Nat.not_le.mp hlt),
    List.getElem?_append_right (Nat.le_refl other.length), Nat.sub_self] at hget
  exact h (List.mem_of_getElem? hget)

theorem afterBars?_lineText (tokens : Item) (score : Float32) :
    afterBars? (encode (lineText true tokens score)) =
      some (encode (lineText false tokens score)) := by
  have hline : lineText true tokens score =
      scoreText score ++ separator ++ lineText false tokens score := by
    simp [lineText]
  have hspace : UInt8.ofNat (' ').toNat ∉ encode (scoreText score) := fun hbyte => by
    have hblank := not_isBlank_of_mem_scoreText (Text.mem_toList_of_mem_encode (by decide) hbyte)
    cases hblank
  obtain ⟨pattern, hpattern⟩ : ∃ pattern, encode separator = UInt8.ofNat (' ').toNat :: pattern :=
    ⟨_, rfl⟩
  rw [afterBars?, hline, Text.encode_append, Text.encode_append, hpattern,
    dropInfix?_append hspace, Option.map_some]

/-- What stands behind the scores are the lines without scores. -/
theorem mapM_afterBars?_lines (h : Worded os) :
    (Text.lines (rendering true os)).mapM afterBars? = some (Text.lines (rendering false os)) := by
  rw [lines_rendering h, lines_rendering h, List.mapM_map]
  simp only [Function.comp_def, afterBars?_lineText]
  exact List.mapM_pure

end Document

end DecodingDesk

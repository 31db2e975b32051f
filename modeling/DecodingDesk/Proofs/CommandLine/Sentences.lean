import DecodingDesk.Proofs.CommandLine.Arguments
import DecodingDesk.Proofs.CommandLine.Output
import DecodingDesk.Proofs.Json.Lines
import DecodingDesk.Proofs.Model.Echo
import DecodingDesk.Proofs.Service.Schedule
/-!
# A line for each sentence

A command with sentences makes a call for each of them, and each call is answered as if it were
alone.  So whatever the order in which the calls are looked at and their jobs are run, the
command prints one line for each sentence, in their order, from which the result is read back.
Without any hypotheses wanted, every call is refused and nothing is printed.  Beside the lines
there are records on standard output, unless the environment turns the log off.
-/

namespace DecodingDesk.CommandLine

open Model (Echo)

/-- The first tokens, as many as the rank says modulo their number, put at the end. -/
def rotated (tokens : Item) (rank : Nat) : Item :=
  tokens.drop (rank % tokens.length) ++ tokens.take (rank % tokens.length)

/-- A line from which the result for a sentence is read back: a single item with so many
hypotheses, whose tokens are the words of the sentence rotated by the rank and cut, with
attention if it is wanted. -/
structure Answers (count : Nat) (attention : Bool) (sentence line : String) : Prop where
  oneLine : '\n' ∉ line.toList
  reads : ∃ r, BatchResult.parse? line = some ⟨[r]⟩ ∧ r.hypotheses.length = count ∧
    ∀ k h, r.hypotheses[k]? = some h →
      h.tokens = (rotated (Text.words sentence) k).take 250 ∧ h.attention.isSome = attention

/-- Entries are one line for each sentence, in their order. -/
def Prints (count : Nat) (attention : Bool) (sentences : List String) (entries : List Entry) :
    Prop :=
  ∃ lines, entries = lines.map Entry.line ∧ List.Forall₂ (Answers count attention) sentences lines

/-! ## One sentence -/

namespace Command

variable {c : Command} {options : Options}

theorem params_valid (c : Command) (h : c.numHypotheses.getD 1 ≠ 0) : c.params.Valid where
  beamSize_ne_zero := Options.default.valid.beamSize_ne_zero
  numHypotheses_ne_zero := h
  min_le_max := Options.default.valid.min_le_max
  penalty_isFinite := Options.default.valid.penalty_isFinite

theorem validate_params_of_zero (h : c.numHypotheses.getD 1 = 0) :
    Options.validate c.params = .error .zeroHypotheses := by
  have hbeam : c.params.beamSize ≠ 0 := Options.default.valid.beamSize_ne_zero
  have hzero : c.params.numHypotheses = 0 := h
  rw [Options.validate, dif_neg hbeam, dif_pos hzero]

theorem count_eq (h : options.params = c.params) :
    Echo.count options = min (c.numHypotheses.getD 1).toNat 4 := by
  rw [Echo.count, h]
  rfl

theorem fitsMemory_count (h : options.params = c.params) :
    fitsMemory (Echo.count options) = true := by
  have hle : min (c.numHypotheses.getD 1).toNat 4 ≤ 4 := Nat.min_le_right _ _
  rw [count_eq h, fitsMemory, decide_eq_true_eq]
  simp only [UInt64.size]
  omega

theorem hypothesis_eq (h : options.params = c.params) (source : Item) (rank : Nat) :
    Echo.hypothesis {} options source rank = (rotated source rank).take 250 := by
  rw [Echo.hypothesis, Echo.rotateLeft_eq, Echo.restrict, h]
  rfl

/-- What a command prints for a sentence is a line with the result for it. -/
theorem answers_print (h : options.params = c.params) (sentence : String) :
    Answers (min (c.numHypotheses.getD 1).toNat 4) c.attention sentence
      (BatchResult.print ⟨[Echo.result {} options (Text.words sentence)]⟩) where
  oneLine := Json.Value.newline_not_mem_print _
  reads := by
    have hpenalty : options.params.lengthPenalty = defaultPenalty := by
      rw [h]
      rfl
    have hcount : Echo.count options ≤ 4 := by
      rw [count_eq h]
      exact Nat.min_le_right _ _
    refine ⟨_, Echo.parse?_print_results hpenalty hcount [Text.words sentence], ?_, ?_⟩
    · simp [Echo.result, count_eq h]
    · intro k x hx
      simp only [Echo.result, List.getElem?_map, Option.map_eq_some_iff] at hx
      obtain ⟨rank, hrank, rfl⟩ := hx
      obtain ⟨hk, rfl⟩ := List.getElem?_eq_some_iff.mp hrank
      rw [List.getElem_range]
      refine ⟨hypothesis_eq h _ _, ?_⟩
      rw [h]
      show (if c.attention then _ else _ : Option Model.Matrix).isSome = c.attention
      split <;> simp_all

/-! ## The answers of the service -/

/-- The call for a sentence. -/
def sentenceCall (c : Command) (sentence : String) : Service.CallSpec :=
  .batch (some [Text.words sentence]) c.params

theorem calls_eq (hinput : c.input = none) (config : Config) :
    c.calls config = c.sentences.map c.sentenceCall := by
  rw [calls, hinput]
  rfl

theorem isDocument_of_mem_calls (hinput : c.input = none) (config : Config) :
    ∀ spec ∈ c.calls config, spec.isDocument = false := by
  intro spec hspec
  rw [calls_eq hinput] at hspec
  obtain ⟨sentence, -, rfl⟩ := List.mem_map.mp hspec
  rfl

theorem alone?_calls (hinput : c.input = none) (config : Config) :
    (c.calls config).map (Service.CallSpec.alone? (Echo.model {})) =
      c.sentences.map fun s =>
        some (Service.alone (Echo.model {}) (some [Text.words s]) c.params) := by
  rw [calls_eq hinput, List.map_map]
  rfl

/-- What is returned for the sentences of a command when its parameters are valid. -/
theorem alone?_calls_of_valid (hinput : c.input = none)
    (hvalid : Options.validate c.params = .ok options) (config : Config) :
    (c.calls config).map (Service.CallSpec.alone? (Echo.model {})) =
      c.sentences.map fun s =>
        some (.ok (.results ⟨[Echo.result {} options (Text.words s)]⟩)) := by
  have hfits := fitsMemory_count (Options.params_of_validate hvalid)
  rw [alone?_calls hinput]
  refine List.map_congr_left fun sentence _ => ?_
  rw [Echo.alone_of_open rfl hvalid hfits]
  rfl

theorem alone?_calls_of_zero (hinput : c.input = none) (hzero : c.numHypotheses.getD 1 = 0)
    (config : Config) :
    (c.calls config).map (Service.CallSpec.alone? (Echo.model {})) =
      c.sentences.map fun _ => some (.error (.error (.options .zeroHypotheses))) := by
  rw [alone?_calls hinput]
  refine List.map_congr_left fun sentence _ => ?_
  rw [Service.alone, validate_params_of_zero hzero]

end Command

/-! ## What is printed -/

/-- Results are printed on a line each. -/
theorem report_results (c : Command) (result : String → BatchResult) (sentences : List String) :
    report ((sentences.map c.sentenceCall).zip
        (sentences.map fun s => some (.ok (.results (result s))))) =
      (sentences.map fun s => .line (result s).print, none) := by
  induction sentences with
  | nil => rfl
  | cons sentence sentences ih =>
    rw [List.map_cons, List.map_cons, List.zip_cons_cons, report, ih]
    · rfl
    · rintro e ⟨⟩

theorem prints_results {count : Nat} {attention : Bool} {result : String → BatchResult}
    (h : ∀ sentence, Answers count attention sentence (result sentence).print)
    (sentences : List String) :
    Prints count attention sentences (sentences.map fun s => .line (result s).print) := by
  refine ⟨sentences.map fun s => (result s).print, by rw [List.map_map]; rfl, ?_⟩
  induction sentences with
  | nil => exact .nil
  | cons sentence sentences ih => exact .cons (h sentence) ih

theorem Prints.filter_isPrinted {count : Nat} {attention : Bool} {sentences : List String}
    {entries : List Entry} (h : Prints count attention sentences entries) :
    entries.filter Entry.isPrinted = entries := by
  obtain ⟨lines, rfl, -⟩ := h
  refine List.filter_eq_self.mpr fun entry hentry => ?_
  obtain ⟨line, -, rfl⟩ := List.mem_map.mp hentry
  rfl

/-! ## The command -/

variable {files : Files} {env : List (String × String)} {c : Command} {config : Config}
  {service : Service}

/-- How a command ends that has a service: with the report on its calls, and with the error in
it if there is one. -/
theorem Command.run_eq (hconfig : c.configuration files env = .ok config)
    (hservice : (Service.create (Echo.loader {} files 0) files (.ofConfig config)).result =
      .ok service) {entries : List Entry} {error? : Option Error}
    (hreport : report ((c.calls config).zip (service.answerAll (c.calls config)).2) =
      (entries, error?)) :
    (c.run files env).output = opening config service ++ entries ++ closing service ++
        error?.toList.map (.record <| .runFailed ·) ∧
      (c.run files env).code = if error?.isNone then successCode else failureCode := by
  unfold Command.run
  rw [hconfig]
  simp only [hservice, hreport]
  cases error? with
  | none => exact ⟨(List.append_nil _).symm, rfl⟩
  | some e => exact ⟨rfl, rfl⟩

/-- What a command prints that has a service is what is printed in the report on its calls. -/
theorem Command.printsJust_run (hconfig : c.configuration files env = .ok config)
    (hservice : (Service.create (Echo.loader {} files 0) files (.ofConfig config)).result =
      .ok service) {entries : List Entry} {error? : Option Error}
    (hreport : report ((c.calls config).zip (service.answerAll (c.calls config)).2) =
      (entries, error?)) :
    (c.run files env).PrintsJust (entries.filter Entry.isPrinted) := by
  refine Ending.printsJust (c.firm_run files env) ?_
  have hopening : (opening config service).filter Entry.isPrinted = [] := rfl
  have hclosing : (closing service).filter Entry.isPrinted = [] := rfl
  have herror : (error?.toList.map (Entry.record <| .runFailed ·)).filter Entry.isPrinted = [] := by
    cases error? <;> rfl
  rw [(Command.run_eq hconfig hservice hreport).1, List.filter_append, List.filter_append,
    List.filter_append, hopening, hclosing, herror, List.nil_append, List.append_nil,
    List.append_nil]

theorem model_of_create (hservice :
    (Service.create (Echo.loader {} files 0) files (.ofConfig config)).result = .ok service) :
    service.model = Echo.model {} := by
  obtain ⟨request, hload⟩ := Service.exists_request_of_create hservice
  unfold Echo.loader at hload
  simp only at hload
  split at hload
  · cases hload
  · split at hload
    · cases hload
    · exact (Except.ok.inj hload).symm

/-- What the calls of a command return, looked at in turn, is what each returns by itself. -/
theorem Command.answerAll_eq (hinput : c.input = none) (hservice :
    (Service.create (Echo.loader {} files 0) files (.ofConfig config)).result = .ok service) :
    (service.answerAll (c.calls config)).2 =
      (c.calls config).map (Service.CallSpec.alone? (Echo.model {})) := by
  have hanswers := Service.answerAll_eq hservice (c.isDocument_of_mem_calls hinput config)
  rw [model_of_create hservice] at hanswers
  exact hanswers (Echo.model_ne_lethal {})

/-- However the calls of a command are scheduled, they complete with what each returns by
itself. -/
theorem Command.complete (hinput : c.input = none) (hservice :
    (Service.create (Echo.loader {} files 0) files (.ofConfig config)).result = .ok service) :
    Service.Complete (c.calls config) service
      ((c.calls config).map (Service.CallSpec.alone? (Echo.model {}))) := by
  have hcomplete := Service.complete_of_create hservice (c.isDocument_of_mem_calls hinput config)
  rw [model_of_create hservice] at hcomplete
  exact hcomplete (Echo.model_ne_lethal {})

/-- The number of hypotheses that is wanted where options are written. -/
def wanted (written : List Written) : UInt64 :=
  (countIn written).getD 1

def sentencesIn (written : List Written) : List String :=
  written.filterMap (Written.value? .sentence)

/-- What comes of options with what the calls for their sentences have returned.  If hypotheses
are wanted, the run succeeds and a line is printed for each sentence; if none are, it fails and
nothing is printed. -/
structure Delivered (written : List Written) (config : Config) (service : Service)
    (calls : List (Service.CallSpec × Option Service.CallReply)) (ending : Ending) : Prop where
  printed : wanted written ≠ 0 → ∃ entries,
    Prints (min (wanted written).toNat 4) (decide (.flag .attention ∈ written))
        (sentencesIn written) entries ∧
      report calls = (entries, none) ∧ ending.code = successCode ∧
      ending.output = opening config service ++ entries ++ closing service ∧
      ending.PrintsJust entries
  refused : wanted written = 0 → sentencesIn written ≠ [] → ∃ e,
    report calls = ([], some e) ∧ ending.code = failureCode ∧
      ending.output = opening config service ++ closing service ++ [.record (.runFailed e)] ∧
      ending.PrintsJust []

theorem delivered_run {written : List Written} (hhas : c.Has written) (hinput : c.input = none)
    (hconfig : c.configuration files env = .ok config)
    (hservice : (Service.create (Echo.loader {} files 0) files (.ofConfig config)).result =
      .ok service) :
    Delivered written config service
      ((c.calls config).zip ((c.calls config).map (Service.CallSpec.alone? (Echo.model {}))))
      (c.run files env) := by
  have hanswers := Command.answerAll_eq hinput hservice
  have hwanted : wanted written = c.numHypotheses.getD 1 := by rw [wanted, hhas.numHypotheses]
  have hsentences : sentencesIn written = c.sentences := hhas.sentences.symm
  constructor
  · intro hne
    rw [hwanted] at hne ⊢
    rw [← hhas.attention, hsentences]
    obtain ⟨options, hvalid⟩ := (Options.exists_validate_iff c.params).mpr (c.params_valid hne)
    have hprints := prints_results (Command.answers_print (Options.params_of_validate hvalid))
      c.sentences
    have hreport := report_results c (fun s => ⟨[Echo.result {} options (Text.words s)]⟩)
      c.sentences
    rw [← Command.alone?_calls_of_valid hinput hvalid config, ← hanswers,
      ← Command.calls_eq hinput config] at hreport
    rw [← hanswers]
    obtain ⟨houtput, hcode⟩ := Command.run_eq hconfig hservice hreport
    have hjust := Command.printsJust_run hconfig hservice hreport
    rw [hprints.filter_isPrinted] at hjust
    exact ⟨_, hprints, hreport, hcode, houtput.trans (List.append_nil _), hjust⟩
  · intro hzero hne
    rw [hwanted] at hzero
    rw [hsentences] at hne
    obtain ⟨sentence, sentences, hcons⟩ := List.exists_cons_of_ne_nil hne
    have hreport : report ((c.calls config).zip (service.answerAll (c.calls config)).2) =
        ([], some (.options .zeroHypotheses)) := by
      rw [hanswers, Command.alone?_calls_of_zero hinput hzero, Command.calls_eq hinput, hcons]
      rfl
    rw [← hanswers]
    obtain ⟨houtput, hcode⟩ := Command.run_eq hconfig hservice hreport
    rw [List.append_nil] at houtput
    exact ⟨_, hreport, hcode, houtput, Command.printsJust_run hconfig hservice hreport⟩

/-- Options with sentences are accepted.  Whenever a service can be created, the calls for the
sentences complete in every run with the same replies, and what the command prints is a line
for each sentence in their order. -/
theorem sentences_delivered {written : List Written} (hwritten : Acceptable written)
    (files : Files) (env : List (String × String)) :
    ∃ c, Command.ofArguments (written.flatMap Written.texts) = .ok c ∧
      ∀ config service, c.configuration files env = .ok config →
        (Service.create (Echo.loader {} files 0) files (.ofConfig config)).result = .ok service →
          ∃ replies, Service.Complete (c.calls config) service replies ∧
            Delivered written config service ((c.calls config).zip replies)
              (run (written.flatMap Written.texts) files env) := by
  obtain ⟨c, haccepted, hinput, hhas⟩ := Command.exists_ofArguments hwritten
  refine ⟨c, haccepted, fun config service hconfig hservice => ?_⟩
  have hrun : run (written.flatMap Written.texts) files env = c.run files env := by
    rw [run, haccepted]
  rw [hrun]
  exact ⟨_, Command.complete hinput hservice, delivered_run hhas hinput hconfig hservice⟩

/-- Two sentences with attention and two hypotheses for each, written in different ways. -/
def twoSentences : List Written :=
  [.joined .model "/work", .apart .sentence "a b", .flag .attention, .joined .numHypotheses "2",
    .joined .sentence "-c d e"]

def twoSentencesCommand : Command where
  model := some "/work"
  sentences := ["a b", "-c d e"]
  numHypotheses := some 2
  attention := true

def workService : Service where
  model := Echo.model {}
  device := .cpu
  deviceIndex := 0
  pool := Pool.start 1
  files := Files.empty

theorem acceptable_twoSentences : Acceptable twoSentences where
  valid := by
    intro w hw
    simp only [twoSentences, List.mem_cons, List.not_mem_nil, or_false] at hw
    rcases hw with rfl | rfl | rfl | rfl | rfl
    · exact (by decide : "/work" ≠ "")
    · exact ⟨trivial, by decide⟩
    · exact ⟨Flag.noConfusion, Flag.noConfusion⟩
    · exact (by decide : (count? "2").isSome)
    · exact trivial
  once := by decide
  noInput := by decide

theorem sentences_delivered_twoSentences :
    Acceptable twoSentences ∧
      ∃ entries, Prints 2 true ["a b", "-c d e"] entries ∧
        (run (twoSentences.flatMap Written.texts) Files.empty []).code = successCode ∧
        (run (twoSentences.flatMap Written.texts) Files.empty []).PrintsJust entries := by
  refine ⟨acceptable_twoSentences, ?_⟩
  obtain ⟨c, hc, hdelivered⟩ := sentences_delivered acceptable_twoSentences Files.empty []
  have hcommand : Command.ofArguments (twoSentences.flatMap Written.texts) =
      .ok twoSentencesCommand := by rfl
  rw [hcommand] at hc
  cases hc
  obtain ⟨replies, -, hprinted, -⟩ :=
    hdelivered { modelPath := "/work" } workService (by rfl) (by rfl)
  obtain ⟨entries, hprints, -, hcode, -, hjust⟩ := hprinted (by decide)
  exact ⟨entries, hprints, hcode, hjust⟩

/-- A sentence that is written where nothing describes a filter. -/
def oneSentence : List Written :=
  [.joined .model "/work", .apart .sentence "a"]

def oneSentenceCommand : Command where
  model := some "/work"
  sentences := ["a"]

theorem has_oneSentence : oneSentenceCommand.Has oneSentence where
  sentences := by rfl
  numHypotheses := by rfl
  attention := by rfl

/-- The lines for sentences are not all that is on standard output: where nothing describes a
filter there are records as well.  And not every sentence can be written in an argument of its
own: one that begins with a hyphen is taken for an option, which ends the run. -/
theorem not_lines_alone :
    (run ["--model=/work", "--sentence", "a"] Files.empty []).code = successCode ∧
      (∀ read?, ∃ shown, (run ["--model=/work", "--sentence", "a"] Files.empty []).Shows
        (filterIn read? []) shown ∧ ¬ Prints 1 false ["a"] shown) ∧
      (run ["--model=/work", "--sentence", "-1"] Files.empty []).code = usageCode ∧
      (run ["--model=/work", "--sentence", "-1"] Files.empty []).output = [] := by
  have hdelivered : Delivered oneSentence { modelPath := "/work" } workService _
      (oneSentenceCommand.run Files.empty []) :=
    delivered_run has_oneSentence rfl (by rfl) (by rfl)
  obtain ⟨entries, -, -, hcode, houtput, hjust⟩ := hdelivered.printed (by decide)
  refine ⟨hcode, fun read? => ⟨_, (hjust.default _).mpr rfl, fun hprints => ?_⟩, by rfl, by rfl⟩
  have hprinted := List.filter_eq_self.mp hprints.filter_isPrinted _
    (houtput ▸ List.mem_append_left _ (List.mem_append_left _ List.mem_cons_self))
  cases hprinted

end DecodingDesk.CommandLine

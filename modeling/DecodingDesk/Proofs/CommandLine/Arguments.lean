import DecodingDesk.CommandLine.Arguments
/-!
# What a command has from its arguments

Options are written out one after another, each with its value behind an equals sign or in the
next argument.  Arguments are accepted if every value is one that its option takes and no option
but the one for a sentence is repeated; and then the sentences of the command are those
written, in their order.
-/

namespace DecodingDesk.CommandLine

/-- An option as it is written. -/
inductive Written where
  /-- the value behind an equals sign -/
  | joined (o : ValueOption) (value : String)
  /-- the value in the next argument -/
  | apart (o : ValueOption) (value : String)
  | flag (f : Flag)
deriving DecidableEq, Repr

/-- Whether an option takes a value.  A sentence may be any text. -/
def ValueOption.Takes (o : ValueOption) (value : String) : Prop :=
  match o with
  | .sentence => True
  | .numHypotheses => (count? value).isSome
  | _ => value ≠ ""

namespace Written

def texts : Written → List String
  | joined o value => ["--" ++ o.name ++ "=" ++ value]
  | apart o value => ["--" ++ o.name, value]
  | flag f => ["--" ++ f.name]

/-- The value for an option, if that is the one that is written. -/
def value? (o : ValueOption) : Written → Option String
  | joined o' value | apart o' value => if o' = o then some value else none
  | flag _ => none

/-- The option, unless it is one that may be repeated. -/
def single? : Written → Option CommandOption
  | joined o _ | apart o _ => if o = .sentence then none else some (.valued o)
  | flag f => some (.flag f)

/-- Whether an option can be read: it takes its value, which does not look like an option if it
stands in an argument of its own, and it asks for no help. -/
def IsValid : Written → Prop
  | joined o value => o.Takes value
  | apart o value => o.Takes value ∧ Argument.ofText value = .plain value
  | flag f => f ≠ .help ∧ f ≠ .version

end Written

/-- Options that are accepted together and do not ask for a document. -/
structure Acceptable (written : List Written) : Prop where
  valid : ∀ w ∈ written, w.IsValid
  once : (written.filterMap Written.single?).Nodup
  noInput : .valued .input ∉ written.filterMap Written.single?

/-- The number of hypotheses that is written. -/
def countIn (written : List Written) : Option UInt64 :=
  written.findSome? fun w => (w.value? .numHypotheses).bind count?

/-- A command has the sentences, the number of hypotheses and the flag for attention that are
written. -/
structure Command.Has (c : Command) (written : List Written) : Prop where
  sentences : c.sentences = written.filterMap (Written.value? .sentence)
  numHypotheses : c.numHypotheses = countIn written
  attention : c.attention = decide (.flag .attention ∈ written)

/-! ## Reading one option -/

theorem CommandOption.ofName?_name (o : CommandOption) : ofName? o.name = some o := by
  cases o with
  | valued o => cases o <;> rfl
  | flag f => cases f <;> rfl

/-- A name has no equals sign and is not empty. -/
theorem CommandOption.name_spec (o : CommandOption) :
    (o.name.toList.all fun c => decide (c ≠ '=')) = true ∧ o.name.toList ≠ [] := by
  cases o with
  | valued o => cases o <;> decide
  | flag f => cases f <;> decide

theorem ofName_append {name : List Char} (hname : (name.all fun c => decide (c ≠ '=')) = true)
    (value : List Char) :
    Argument.ofName (name ++ '=' :: value) =
      .long (String.ofList name) (some (String.ofList value)) := by
  have hpass := List.all_eq_true.mp hname
  unfold Argument.ofName
  simp only [List.takeWhile_append_of_pos hpass, List.dropWhile_append_of_pos hpass]
  simp

theorem ofText_joined (o : CommandOption) (value : String) :
    Argument.ofText ("--" ++ o.name ++ "=" ++ value) = .long o.name (some value) := by
  obtain ⟨hname, hne⟩ := o.name_spec
  have htext : ("--" ++ o.name ++ "=" ++ value).toList =
      '-' :: '-' :: (o.name.toList ++ '=' :: value.toList) := by
    simp
  have hlong := ofName_append hname value.toList
  rw [String.ofList_toList, String.ofList_toList] at hlong
  unfold Argument.ofText
  rw [htext]
  obtain ⟨c, cs, hcons⟩ := List.exists_cons_of_ne_nil hne
  rw [hcons] at hlong ⊢
  exact hlong

theorem ofText_name (o : CommandOption) : Argument.ofText ("--" ++ o.name) = .long o.name none := by
  cases o with
  | valued o => cases o <;> rfl
  | flag f => cases f <;> rfl

/-! ## Taking one option -/

namespace Command

variable {c : Command} {before : List Written} {w : Written}

/-- Takes an option as it is written. -/
def take (c : Command) : Written → Except Stop Command
  | .joined o value | .apart o value => c.setValue o value
  | .flag f => c.setFlag f

theorem takeAll_texts (hvalid : w.IsValid) (c : Command) (rest : List String) :
    c.takeAll (w.texts ++ rest) = (c.take w).bind fun c => c.takeAll rest := by
  cases w with
  | joined o value =>
    have htext := ofText_joined (.valued o) value
    have hname := CommandOption.ofName?_name (.valued o)
    simp only [CommandOption.name] at htext hname
    simp [Written.texts, takeAll, htext, hname, take]
  | apart o value =>
    have htext := ofText_name (.valued o)
    have hname := CommandOption.ofName?_name (.valued o)
    simp only [CommandOption.name] at htext hname
    simp [Written.texts, takeAll, htext, hname, hvalid.2, take]
  | flag f =>
    have htext := ofText_name (.flag f)
    have hname := CommandOption.ofName?_name (.flag f)
    simp only [CommandOption.name] at htext hname
    simp [Written.texts, takeAll, htext, hname, take]

/-- Whether an option that may be given once has been given. -/
def isSet (c : Command) : CommandOption → Bool
  | .valued .config => c.config.isSome
  | .valued .model => c.model.isSome
  | .valued .input => c.input.isSome
  | .valued .output => c.output.isSome
  | .valued .sentence => false
  | .valued .numHypotheses => c.numHypotheses.isSome
  | .flag .withScores => c.withScores
  | .flag .attention => c.attention
  | .flag _ => false

/-- What taking an option makes of a command. -/
structure Takes (c : Command) (w : Written) (c' : Command) : Prop where
  isSet : ∀ o, c'.isSet o = (c.isSet o || decide (w.single? = some o))
  sentences : c'.sentences = c.sentences ++ (w.value? .sentence).toList
  numHypotheses :
    c'.numHypotheses = c.numHypotheses.or ((w.value? .numHypotheses).bind count?)
  attention : c'.attention = (c.attention || decide (w = .flag .attention))

theorem takePath_eq {o : ValueOption} {old : Option String} {value : String}
    (hold : old.isSome = false) (hvalue : value ≠ "") (command : Option String → Command) :
    takePath o old value command = .ok (command (some value)) := by
  simp [takePath, hold, hvalue]

theorem exists_setValue {o : ValueOption} {value : String} (htakes : o.Takes value)
    (hfree : o ≠ .sentence → c.isSet (.valued o) = false)
    (hw : w = .joined o value ∨ w = .apart o value) :
    ∃ c', c.setValue o value = .ok c' ∧ c.Takes w c' := by
  have hvalue : ∀ o', w.value? o' = if o = o' then some value else none := by
    rcases hw with rfl | rfl <;> exact fun _ => rfl
  have hsingle : w.single? = if o = .sentence then none else some (.valued o) := by
    rcases hw with rfl | rfl <;> rfl
  have hflag : w ≠ .flag .attention := by
    rcases hw with rfl | rfl <;> exact Written.noConfusion
  cases o with
  | sentence =>
    refine ⟨_, rfl, ?_, by simp [hvalue], by simp [hvalue], by simp [hflag]⟩
    intro o'
    cases o' <;> simp [hsingle, isSet]
  | numHypotheses =>
    have hold := hfree ValueOption.noConfusion
    obtain ⟨n, hn⟩ := Option.isSome_iff_exists.mp htakes
    have hnone : c.numHypotheses = none := by simpa [isSet] using hold
    refine ⟨{ c with numHypotheses := some n }, by simp [Command.setValue, hnone, hn], ?_,
      by simp [hvalue], by simp [hvalue, hnone, hn], by simp [hflag]⟩
    rintro ((_ | _ | _ | _ | _ | _) | (_ | _ | _ | _)) <;> simp [hsingle, isSet]
  | config | model | input | output =>
    simp only [Command.setValue]
    refine ⟨_, takePath_eq (hfree ValueOption.noConfusion) htakes _, ?_, by simp [hvalue],
      by simp [hvalue], by simp [hflag]⟩
    rintro ((_ | _ | _ | _ | _ | _) | (_ | _ | _ | _)) <;> simp [hsingle, isSet]

/-- An option that is valid and has not been given is taken. -/
theorem exists_take (hvalid : w.IsValid) (hfree : ∀ o, w.single? = some o → c.isSet o = false) :
    ∃ c', c.take w = .ok c' ∧ c.Takes w c' := by
  have hold : ∀ {o : ValueOption}, (if o = .sentence then none else some (.valued o)) = w.single? →
      o ≠ .sentence → c.isSet (.valued o) = false := by
    intro o hsingle hne
    exact hfree _ (by rw [← hsingle, if_neg hne])
  cases w with
  | joined o value => exact exists_setValue hvalid (hold rfl) (.inl rfl)
  | apart o value => exact exists_setValue hvalid.1 (hold rfl) (.inr rfl)
  | flag f =>
    have hold := hfree (.flag f) rfl
    cases f with
    | withScores | attention =>
      have hoff := hold
      simp only [isSet] at hoff
      refine ⟨_, by simp [take, Command.setFlag, hoff]; rfl, ?_, by simp [Written.value?],
        by simp [Written.value?], by simp⟩
      rintro ((_ | _ | _ | _ | _ | _) | (_ | _ | _ | _)) <;> simp [Written.single?, isSet]
    | help => exact absurd rfl hvalid.1
    | version => exact absurd rfl hvalid.2

/-! ## Taking options in turn -/

theorem has_nil : ({} : Command).Has [] :=
  ⟨rfl, rfl, rfl⟩

theorem Has.take {c' : Command} (h : c.Has before) (htakes : c.Takes w c') :
    c'.Has (before ++ [w]) where
  sentences := by
    rw [htakes.sentences, h.sentences, List.filterMap_append]
    cases hw : w.value? .sentence <;> simp [hw]
  numHypotheses := by
    rw [htakes.numHypotheses, h.numHypotheses, countIn, countIn, List.findSome?_append]
    cases hw : (w.value? .numHypotheses).bind count? <;> simp [hw]
  attention := by
    rw [htakes.attention, h.attention]
    simp [eq_comm]

/-- Options that are valid, not repeated and not given before are taken in turn. -/
theorem exists_takeAll {written : List Written} (hvalid : ∀ w ∈ written, w.IsValid)
    (honce : (written.filterMap Written.single?).Nodup)
    (hfree : ∀ o ∈ written.filterMap Written.single?, c.isSet o = false) (hbefore : c.Has before) :
    ∃ c', c.takeAll (written.flatMap Written.texts) = .ok c' ∧ c'.Has (before ++ written) ∧
      ∀ o, c'.isSet o = (c.isSet o || decide (o ∈ written.filterMap Written.single?)) := by
  induction written generalizing c before with
  | nil => exact ⟨c, rfl, by rwa [List.append_nil], fun o => by simp⟩
  | cons w written ih =>
    have hw := hvalid w List.mem_cons_self
    have hfirst : ∀ o, w.single? = some o → o ∈ (w :: written).filterMap Written.single? :=
      fun o ho => List.mem_filterMap.mpr ⟨w, List.mem_cons_self, ho⟩
    have hrest : ∀ o ∈ written.filterMap Written.single?, w.single? ≠ some o := by
      intro o ho hsingle
      rw [List.filterMap_cons_some hsingle] at honce
      exact (List.nodup_cons.mp honce).1 ho
    have honce' : (written.filterMap Written.single?).Nodup :=
      honce.sublist ((List.sublist_cons_self w written).filterMap _)
    obtain ⟨c₁, htake, htakes⟩ := exists_take hw fun o ho => hfree o (hfirst o ho)
    have hfree₁ : ∀ o ∈ written.filterMap Written.single?, c₁.isSet o = false := by
      intro o ho
      have hmem : o ∈ (w :: written).filterMap Written.single? :=
        ((List.sublist_cons_self w written).filterMap _).subset ho
      simp [htakes.isSet, hfree o hmem, hrest o ho]
    obtain ⟨c', htakeAll, hhas, hset⟩ := ih (fun x hx => hvalid x (List.mem_cons_of_mem w hx))
      honce' hfree₁ (hbefore.take htakes)
    refine ⟨c', ?_, by rwa [List.append_assoc] at hhas, fun o => ?_⟩
    · rw [List.flatMap_cons, takeAll_texts hw, htake]
      exact htakeAll
    · rw [hset, htakes.isSet, Bool.or_assoc]
      cases hsingle : w.single? <;> simp [hsingle, eq_comm]

/-- Arguments that write acceptable options are accepted, and the command has what they say. -/
theorem exists_ofArguments {written : List Written} (h : Acceptable written) :
    ∃ c, ofArguments (written.flatMap Written.texts) = .ok c ∧ c.input = none ∧
      c.Has written := by
  have hfree : ∀ o ∈ written.filterMap Written.single?, ({} : Command).isSet o = false := by
    rintro ((_ | _ | _ | _ | _ | _) | (_ | _ | _ | _)) _ <;> rfl
  obtain ⟨c, htake, hhas, hset⟩ := exists_takeAll h.valid h.once hfree has_nil
  have hinput : c.input = none := by
    have hnone := hset (.valued .input)
    rw [decide_eq_false h.noInput] at hnone
    simpa [isSet] using hnone
  refine ⟨c, ?_, hinput, hhas⟩
  rw [ofArguments, htake]
  simp [Except.bind, check, hinput]

end Command

end DecodingDesk.CommandLine

import Mathlib.Data.List.Count
import Mathlib.Data.List.Nodup
import DecodingDesk.Options.Json
import DecodingDesk.Proofs.Result.RoundTrip
/-!
# Fields of decoding parameters

Parameters are the defaults changed at the fields that a text gives, whatever the order of its
keys and whatever unknown keys it has.  A known key may come only once, and what is given must
have the type of its field.  An array gives the fields in the order of their declaration, as
many as it has items; and what is written for parameters gives all of them.
-/

namespace DecodingDesk.DecodingParams

open Json (Value Fields)

inductive Field where
  | beamSize
  | numHypotheses
  | lengthPenalty
  | maxDecodingLength
  | minDecodingLength
  | restrictVocabulary
  | returnAttention
  | withScores
deriving DecidableEq, Repr

namespace Field

/-- The fields in the order of their declaration. -/
def all : List Field :=
  [beamSize, numHypotheses, lengthPenalty, maxDecodingLength, minDecodingLength,
   restrictVocabulary, returnAttention, withScores]

def name : Field → String
  | beamSize => "beam_size"
  | numHypotheses => "num_hypotheses"
  | lengthPenalty => "length_penalty"
  | maxDecodingLength => "max_decoding_length"
  | minDecodingLength => "min_decoding_length"
  | restrictVocabulary => "restrict_vocabulary"
  | returnAttention => "return_attention"
  | withScores => "with_scores"

/-- What a field holds. -/
def Holds : Field → Type
  | beamSize | numHypotheses | maxDecodingLength | minDecodingLength => UInt64
  | lengthPenalty => Float32
  | restrictVocabulary | returnAttention | withScores => Bool

def get (p : DecodingParams) : (f : Field) → f.Holds
  | beamSize => p.beamSize
  | numHypotheses => p.numHypotheses
  | lengthPenalty => p.lengthPenalty
  | maxDecodingLength => p.maxDecodingLength
  | minDecodingLength => p.minDecodingLength
  | restrictVocabulary => p.restrictVocabulary
  | returnAttention => p.returnAttention
  | withScores => p.withScores

/-- Reads a value as one of a field's type: counts are integers, penalties numbers, and flags
truth values. -/
def read : (f : Field) → Value → Option f.Holds
  | beamSize | numHypotheses | maxDecodingLength | minDecodingLength => Value.toUInt64?
  | lengthPenalty => Value.toFloat?
  | restrictVocabulary | returnAttention | withScores => Value.toBool?

theorem map_name_all : all.map name = fieldNames := rfl

theorem mem_fieldNames_iff {key : String} : key ∈ fieldNames ↔ ∃ f : Field, key = f.name := by
  rw [← map_name_all, List.mem_map]
  constructor
  · rintro ⟨f, -, rfl⟩
    exact ⟨f, rfl⟩
  · rintro ⟨f, rfl⟩
    exact ⟨f, by cases f <;> decide, rfl⟩

end Field

/-- Parameters are what they hold in their fields. -/
theorem exists_get_eq (g : (f : Field) → f.Holds) : ∃ p : DecodingParams, ∀ f, f.get p = g f := by
  refine ⟨{
    beamSize := g .beamSize
    numHypotheses := g .numHypotheses
    lengthPenalty := g .lengthPenalty
    maxDecodingLength := g .maxDecodingLength
    minDecodingLength := g .minDecodingLength
    restrictVocabulary := g .restrictVocabulary
    returnAttention := g .returnAttention
    withScores := g .withScores }, fun f => ?_⟩
  cases f <;> rfl

theorem ofFields?_eq_some_iff {fields : Fields} {p : DecodingParams} :
    ofFields? fields = some p ↔
      ∀ f : Field, fields.optional f.name f.read (f.get {}) = some (f.get p) := by
  simp only [ofFields?, Option.bind_eq_bind, Option.bind_eq_some_iff, Option.pure_def,
    Option.some.injEq]
  constructor
  · rintro ⟨_, hbeam, _, hnum, _, hpenalty, _, hmax, _, hmin, _, hrestrict, _, hattention, _,
      hscores, rfl⟩ (_ | _)
    all_goals assumption
  · intro h
    exact ⟨_, h .beamSize, _, h .numHypotheses, _, h .lengthPenalty, _, h .maxDecodingLength,
      _, h .minDecodingLength, _, h .restrictVocabulary, _, h .returnAttention, _, h .withScores,
      rfl⟩

/-! ## Objects -/

variable {members : List (Option String × Value)} {p : DecodingParams} {text : String}

/-- Whether every key has a text and no known key comes twice. -/
structure Keyed (members : List (Option String × Value)) : Prop where
  named : ∀ m ∈ members, ∃ key, m.1 = some key
  once : ∀ f : Field, (members.map Prod.fst).count (some f.name) ≤ 1

/-- Parameters are the defaults changed at just the fields that members give. -/
structure Overrides (members : List (Option String × Value)) (p : DecodingParams) : Prop where
  given : ∀ (f : Field) (v : Value), (some f.name, v) ∈ members → f.read v = some (f.get p)
  left : ∀ f : Field, (∀ v, (some f.name, v) ∉ members) → f.get p = f.get {}

/-- Whether what is given for known keys has the types of their fields. -/
def Typed (members : List (Option String × Value)) : Prop :=
  ∀ (f : Field) (v : Value), (some f.name, v) ∈ members → ∃ x, f.read v = some x

theorem exists_named_iff : (∃ named : Fields, members = named.map fun m => (some m.1, m.2)) ↔
    ∀ m ∈ members, ∃ key, m.1 = some key := by
  constructor
  · rintro ⟨named, rfl⟩ m hm
    obtain ⟨n, -, rfl⟩ := List.mem_map.mp hm
    exact ⟨n.1, rfl⟩
  · intro h
    induction members with
    | nil => exact ⟨[], rfl⟩
    | cons m members ih =>
      obtain ⟨key, hkey⟩ := h m List.mem_cons_self
      obtain ⟨named, rfl⟩ := ih fun n hn => h n (List.mem_cons_of_mem m hn)
      exact ⟨(key, m.2) :: named, by rw [List.map_cons, ← hkey]⟩

section Named

variable {named : Fields}

theorem mem_known_iff {f : Field} {v : Value} :
    (f.name, v) ∈ named.filter (fun m => fieldNames.contains m.1) ↔
      (some f.name, v) ∈ named.map fun m => (some m.1, m.2) := by
  have hknown : fieldNames.contains f.name = true :=
    List.contains_iff_mem.mpr (Field.mem_fieldNames_iff.mpr ⟨f, rfl⟩)
  rw [List.mem_filter, and_iff_left hknown, List.mem_map]
  constructor
  · exact fun h => ⟨_, h, rfl⟩
  · rintro ⟨⟨key, w⟩, hmem, heq⟩
    cases heq
    exact hmem

theorem nodup_known_iff :
    ((named.filter fun m => fieldNames.contains m.1).map Prod.fst).Nodup ↔
      ∀ f : Field, ((named.map fun m => (some m.1, m.2)).map Prod.fst).count (some f.name) ≤ 1 := by
  have hkeys : (named.filter fun m => fieldNames.contains m.1).map Prod.fst =
      (named.map Prod.fst).filter fieldNames.contains := by
    rw [List.filter_map]
    rfl
  have hcount : ∀ f : Field,
      ((named.map fun m => (some m.1, m.2)).map Prod.fst).count (some f.name) =
        ((named.map Prod.fst).filter fieldNames.contains).count f.name := by
    intro f
    have hknown : fieldNames.contains f.name = true :=
      List.contains_iff_mem.mpr (Field.mem_fieldNames_iff.mpr ⟨f, rfl⟩)
    have hsome := List.count_map_of_injective (named.map Prod.fst) some
      (fun _ _ h => Option.some.inj h) f.name
    rw [List.count_filter hknown, ← hsome, List.map_map, List.map_map]
    rfl
  simp only [hkeys, hcount, List.nodup_iff_count_le_one]
  constructor
  · exact fun h f => h f.name
  · intro h key
    by_cases hmem : key ∈ (named.map Prod.fst).filter fieldNames.contains
    · obtain ⟨f, rfl⟩ := Field.mem_fieldNames_iff.mp
        (List.contains_iff_mem.mp (List.mem_filter.mp hmem).2)
      exact h f
    · rw [List.count_eq_zero_of_not_mem hmem]
      exact Nat.zero_le 1

end Named

theorem ofValue?_obj_eq_some_iff :
    ofValue? (.obj members) = some p ↔ Keyed members ∧ Overrides members p := by
  have hread : ofValue? (.obj members) = (Json.knownMembers fieldNames members).bind ofFields? :=
    rfl
  rw [hread, Option.bind_eq_some_iff]
  constructor
  · rintro ⟨fields, hfields, hp⟩
    obtain ⟨named, rfl, rfl, hnodup⟩ := Json.knownMembers_eq_some_iff.mp hfields
    have hoptional := fun f => (Json.Fields.optional_eq_some_iff hnodup).mp
      (ofFields?_eq_some_iff.mp hp f)
    refine ⟨⟨exists_named_iff.mp ⟨named, rfl⟩, nodup_known_iff.mp hnodup⟩, ?_, ?_⟩
    · exact fun f v hv => (hoptional f).1 v (mem_known_iff.mpr hv)
    · exact fun f hf => (hoptional f).2 fun v hv => hf v (mem_known_iff.mp hv)
  · rintro ⟨hkeyed, hoverrides⟩
    obtain ⟨named, rfl⟩ := exists_named_iff.mpr hkeyed.named
    have hnodup := nodup_known_iff.mpr hkeyed.once
    refine ⟨_, Json.knownMembers_eq_some_iff.mpr ⟨named, rfl, rfl, hnodup⟩,
      ofFields?_eq_some_iff.mpr fun f => (Json.Fields.optional_eq_some_iff hnodup).mpr ⟨?_, ?_⟩⟩
    · exact fun v hv => hoverrides.given f v (mem_known_iff.mp hv)
    · exact fun hf => hoverrides.left f fun v hv => hf v (mem_known_iff.mpr hv)

/-- Nothing else is given for a key that is given. -/
theorem Keyed.unique (h : Keyed members) {f : Field} {v w : Value}
    (hv : (some f.name, v) ∈ members) (hw : (some f.name, w) ∈ members) : v = w := by
  obtain ⟨named, rfl⟩ := exists_named_iff.mpr h.named
  have hlookup {u : Value} (hu : (some f.name, u) ∈ named.map fun m => (some m.1, m.2)) :=
    (lookup_eq_some_iff_mem (nodup_known_iff.mpr h.once)).mpr (mem_known_iff.mpr hu)
  exact Option.some.inj ((hlookup hv).symm.trans (hlookup hw))

/-- Overriding is possible exactly with what has the types of the fields. -/
theorem Keyed.exists_overrides_iff (h : Keyed members) :
    (∃ p, Overrides members p) ↔ Typed members := by
  constructor
  · rintro ⟨p, hp⟩ f v hv
    exact ⟨_, hp.given f v hv⟩
  · intro htyped
    have hfield : ∀ f : Field, ∃ x, (∀ v, (some f.name, v) ∈ members → f.read v = some x) ∧
        ((∀ v, (some f.name, v) ∉ members) → x = f.get {}) := by
      intro f
      by_cases hgiven : ∃ v, (some f.name, v) ∈ members
      · obtain ⟨v, hv⟩ := hgiven
        obtain ⟨x, hx⟩ := htyped f v hv
        exact ⟨x, fun w hw => h.unique hw hv ▸ hx, fun hnot => absurd hv (hnot v)⟩
      · exact ⟨f.get {}, fun v hv => absurd ⟨v, hv⟩ hgiven, fun _ => rfl⟩
    choose g hgiven hleft using hfield
    obtain ⟨p, hp⟩ := exists_get_eq g
    refine ⟨p, fun f v hv => ?_, fun f hf => ?_⟩
    · rw [hp, hgiven f v hv]
    · rw [hp, hleft f hf]

/-! ## Arrays -/

theorem nodup_fieldNames : fieldNames.Nodup := by
  decide

/-- The items of an array that is not too long are the first fields. -/
theorem ofValue?_arr {items : List Value} (hlength : items.length ≤ Field.all.length) :
    ofValue? (.arr items) = ofValue? (.obj ((Field.all.map fun f => some f.name).zip items)) := by
  have hmembers : Value.obj ((Field.all.map fun f => some f.name).zip items) =
      .object (fieldNames.zip items) := by
    rw [Value.object, ← Field.map_name_all, List.zip_map_left, List.zip_map_left, List.map_map]
    rfl
  have hzip : fieldNames.zip items = (fieldNames.take items.length).zip items := by
    have hmin : min fieldNames.length items.length = items.length := Nat.min_eq_right hlength
    rw [List.zip_eq_zip_take_min, hmin, List.take_length]
  have hnames : ((fieldNames.zip items).map Prod.fst).Nodup := by
    rw [hzip, List.map_fst_zip (List.length_take_le _ _)]
    exact nodup_fieldNames.sublist (List.take_sublist _ _)
  have hobject : (Value.object (fieldNames.zip items)).fields? fieldNames =
      some (fieldNames.zip items) :=
    Json.fields?_object (fun m hm => (List.of_mem_zip hm).1) hnames
  have harray : (Value.arr items).fields? fieldNames = some (fieldNames.zip items) :=
    if_pos hlength
  rw [hmembers, ofValue?, ofValue?, hobject, harray]

theorem ofValue?_arr_of_lt {items : List Value} (hlength : Field.all.length < items.length) :
    ofValue? (.arr items) = none := by
  have harray : (Value.arr items).fields? fieldNames = none := if_neg (Nat.not_le.mpr hlength)
  rw [ofValue?, harray, Option.bind_none]

/-! ## Written parameters -/

/-- The members of written parameters. -/
def written (p : DecodingParams) : Fields :=
  [("beam_size", .nat p.beamSize.toNat),
   ("num_hypotheses", .nat p.numHypotheses.toNat),
   ("length_penalty", .float p.lengthPenalty),
   ("max_decoding_length", .nat p.maxDecodingLength.toNat),
   ("min_decoding_length", .nat p.minDecodingLength.toNat),
   ("restrict_vocabulary", .bool p.restrictVocabulary),
   ("return_attention", .bool p.returnAttention),
   ("with_scores", .bool p.withScores)]

theorem ofValue?_toValue (p : DecodingParams) : ofValue? p.toValue = ofFields? p.written := by
  have hnames : ∀ m ∈ p.written, m.1 ∈ fieldNames := fun m hm =>
    List.mem_map_of_mem (f := Prod.fst) hm
  have hfields : p.toValue.fields? fieldNames = some p.written :=
    Json.fields?_object hnames nodup_fieldNames
  rw [ofValue?, hfields, Option.bind_some]

theorem toUInt64?_nat (n : UInt64) : (Value.nat n.toNat).toUInt64? = some n := by
  have hlt : ¬ UInt64.size ≤ n.toNat := Nat.not_le.mpr n.toNat_lt_size
  simp [Value.nat, Value.toUInt64?, Decimal.Numeral.ofNat, Decimal.Numeral.toUInt64?,
    Decimal.Numeral.isInteger, hlt]

theorem readsBack {p : DecodingParams}
    (hexact : p.lengthPenalty.isFinite → Value.IsExact p.lengthPenalty) :
    Json.ReadsBack toValue ofValue? (·.lengthPenalty.isFinite) p := by
  have hpenalty : Value.toFloat? (Value.float p.lengthPenalty) = _ := Value.readsBack_float hexact
  rw [Json.ReadsBack, ofValue?_toValue]
  split
  · rename_i hfinite
    rw [if_pos hfinite] at hpenalty
    rw [ofFields?_eq_some_iff]
    rintro (_ | _)
    all_goals first | exact toUInt64?_nat _ | exact hpenalty | rfl
  · rename_i hinfinite
    rw [if_neg hinfinite] at hpenalty
    refine Option.eq_none_iff_forall_ne_some.mpr fun q hq => ?_
    have hread := ofFields?_eq_some_iff.mp hq .lengthPenalty
    cases hpenalty.symm.trans hread

/-! ## Texts -/

/-- What reading a text comes to that is JSON for an object with some members. -/
structure ReadsObject (text : String) (members : List (Option String × Value)) : Prop where
  /-- With keys that are read and values of the right types it gives the defaults changed at
  just the given fields. -/
  reads : Keyed members → Typed members →
    ∃ p, parse? text = some p ∧ Overrides members p
  eq_some_iff : ∀ p, parse? text = some p ↔ Keyed members ∧ Overrides members p
  twice : ∀ f : Field, 1 < (members.map Prod.fst).count (some f.name) → parse? text = none
  illTyped : ∀ (f : Field) (v : Value), (some f.name, v) ∈ members → f.read v = none →
    parse? text = none

/-- What reading a text comes to that is JSON for an array: it is the object with as many of the
first fields, if there are so many. -/
structure ReadsArray (text : String) (items : List Value) : Prop where
  firstFields : items.length ≤ Field.all.length →
    ReadsObject text ((Field.all.map fun f => some f.name).zip items)
  tooLong : Field.all.length < items.length → parse? text = none

theorem parse?_of_reads {v : Value} (h : Json.parse? text = some v) :
    parse? text = ofValue? v := by
  rw [parse?, h, Option.bind_some]

theorem readsObject (h : parse? text = ofValue? (.obj members)) : ReadsObject text members := by
  have hiff : ∀ p, parse? text = some p ↔ Keyed members ∧ Overrides members p := fun p => by
    rw [h, ofValue?_obj_eq_some_iff]
  refine ⟨?_, hiff, ?_, ?_⟩
  · intro hkeyed htyped
    obtain ⟨p, hp⟩ := hkeyed.exists_overrides_iff.mpr htyped
    exact ⟨p, (hiff p).mpr ⟨hkeyed, hp⟩, hp⟩
  · intro f htwice
    refine Option.eq_none_iff_forall_ne_some.mpr fun p hp => ?_
    exact absurd (((hiff p).mp hp).1.once f) (Nat.not_le.mpr htwice)
  · intro f v hv hread
    refine Option.eq_none_iff_forall_ne_some.mpr fun p hp => ?_
    have hgiven := ((hiff p).mp hp).2.given f v hv
    rw [hread] at hgiven
    cases hgiven

theorem readsArray {items : List Value} (h : Json.parse? text = some (.arr items)) :
    ReadsArray text items where
  firstFields hlength := readsObject ((parse?_of_reads h).trans (ofValue?_arr hlength))
  tooLong hlength := by rw [parse?_of_reads h, ofValue?_arr_of_lt hlength]

/-- An object overrides the defaults at the fields that it gives, an array does so at the first
fields, and what is written for parameters gives these back exactly if the penalty is finite. -/
theorem override_defaults :
    (∀ text members, Json.parse? text = some (.obj members) → ReadsObject text members) ∧
    (∀ text items, Json.parse? text = some (.arr items) → ReadsArray text items) ∧
    ∀ p : DecodingParams, (p.lengthPenalty.isFinite → Value.IsExact p.lengthPenalty) →
      (parse? p.print = some p ↔ p.lengthPenalty.isFinite) := by
  refine ⟨fun _ _ h => readsObject (parse?_of_reads h), fun _ _ => readsArray, fun p hexact => ?_⟩
  have hread : ofValue? p.toValue = _ := readsBack hexact
  have hprint : parse? p.print = _ := (parse?_of_reads (Json.parse?_print p.toValue)).trans hread
  rw [hprint]
  by_cases hfinite : p.lengthPenalty.isFinite = true
  · simp [hfinite]
  · simp [hfinite]

/-- Two fields in another order with an unknown key among them, a key given twice, a flag that is
a number, the first two fields, a ninth item, and what is written for the defaults. -/
theorem override_defaults_partial :
    parse? "\x7b\"with_scores\":true,\"extra\":[1],\"beam_size\":8\x7d" =
      some { beamSize := 8, withScores := true } ∧
    parse? "\x7b\"beam_size\":8,\"extra\":1,\"beam_size\":8\x7d" = none ∧
    parse? "[8,2]" = some { beamSize := 8, numHypotheses := 2 } ∧
    parse? "[8,-2]" = none ∧
    parse? "[8,2,0.5,9,1,true,true,true,true]" = none ∧
    parse? (print {}) = some {} := by
  obtain ⟨hobject, harray, hwritten⟩ := override_defaults
  have hgiven : Json.parse? "\x7b\"with_scores\":true,\"extra\":[1],\"beam_size\":8\x7d" =
      some (.obj [(some "with_scores", .bool true), (some "extra", .arr [.nat 1]),
        (some "beam_size", .nat 8)]) := Json.parse?_of_print_eq (by decide +kernel)
  have htwice : Json.parse? "\x7b\"beam_size\":8,\"extra\":1,\"beam_size\":8\x7d" =
      some (.obj [(some "beam_size", .nat 8), (some "extra", .nat 1),
        (some "beam_size", .nat 8)]) := Json.parse?_of_print_eq (by decide +kernel)
  have htwo : Json.parse? "[8,2]" = some (.arr [.nat 8, .nat 2]) :=
    Json.parse?_of_print_eq (by decide +kernel)
  have hill : Json.parse? "[8,-2]" =
      some (.arr [.nat 8, .num { negative := true, whole := 2 }]) :=
    Json.parse?_of_print_eq (by decide +kernel)
  have hlong : Json.parse? "[8,2,0.5,9,1,true,true,true,true]" =
      some (.arr [.nat 8, .nat 2, .num { whole := 0, fraction := [5] }, .nat 9, .nat 1, .bool true,
        .bool true, .bool true, .bool true]) := Json.parse?_of_print_eq (by decide +kernel)
  refine ⟨?_, ?_, ?_, ?_, ?_, ?_⟩
  · exact ((hobject _ _ hgiven).eq_some_iff _).mpr
      (ofValue?_obj_eq_some_iff.mp (by decide +kernel))
  · exact (hobject _ _ htwice).twice .beamSize (by decide)
  · exact (((harray _ _ htwo).firstFields (by decide)).eq_some_iff _).mpr
      (ofValue?_obj_eq_some_iff.mp (by decide +kernel))
  · exact ((harray _ _ hill).firstFields (by decide)).illTyped .numHypotheses _
      (List.mem_cons_of_mem _ List.mem_cons_self) rfl
  · exact (harray _ _ hlong).tooLong (by decide)
  · exact (hwritten {} (by decide +kernel)).mpr (by decide +kernel)

end DecodingDesk.DecodingParams

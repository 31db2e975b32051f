import DecodingDesk.Result.Json
import DecodingDesk.Proofs.Json.Record
import DecodingDesk.Proofs.Json.RoundTrip
/-!
# Reading results back

The written form of a batch result is read back as that very result exactly if all
numbers in it are finite, and is refused otherwise, because a number that is not finite is
written as `null`.  What is written besides the numbers can always be told from the text:
the tokens, and whether there is attention, with how many rows of which lengths.
-/

namespace DecodingDesk

open Json (Value ReadsBack)

/-- A number is read back from its written form.  Reading rounds twice, so this is a fact about
each number, and everything below is said of the numbers for which it holds. -/
def Json.Value.IsExact (x : Float32) : Prop :=
  (Value.float x).toFloat? = some x

instance (x : Float32) : Decidable (Json.Value.IsExact x) :=
  inferInstanceAs (Decidable (_ = _))

/-! ## Numbers -/

def Model.Matrix.numbers (m : Model.Matrix) : List Float32 :=
  m.flatten

def Hypothesis.weights (h : Hypothesis) : List Float32 :=
  h.attention.elim [] Model.Matrix.numbers

def Hypothesis.numbers (h : Hypothesis) : List Float32 :=
  h.score :: h.weights

def ItemResult.numbers (r : ItemResult) : List Float32 :=
  r.hypotheses.flatMap Hypothesis.numbers

/-- Every score and every weight in a batch result. -/
def BatchResult.numbers (b : BatchResult) : List Float32 :=
  b.results.flatMap ItemResult.numbers

theorem Json.Value.readsBack_float {x : Float32} (hexact : x.isFinite → Value.IsExact x) :
    ReadsBack Value.float Value.toFloat? Float32.isFinite x := by
  unfold ReadsBack
  split
  · rename_i hfinite
    exact hexact hfinite
  · rename_i hinfinite
    simp [Value.float, Decimal.Layout.numeral?, hinfinite, Value.toFloat?]

theorem Model.Matrix.readsBack {m : Model.Matrix}
    (hexact : ∀ x ∈ m.numbers, x.isFinite → Value.IsExact x) :
    ReadsBack Model.Matrix.toValue Model.Matrix.ofValue? (·.numbers.all Float32.isFinite) m := by
  have hrows : ∀ row ∈ m, ReadsBack _ (Value.toList? Value.toFloat?) _ row := fun row hrow =>
    ReadsBack.toList? fun x hx =>
      Value.readsBack_float (hexact x (List.mem_flatten.mpr ⟨row, hrow, hx⟩))
  simpa [ReadsBack, Model.Matrix.toValue, Model.Matrix.ofValue?, Model.Matrix.numbers] using
    ReadsBack.toList? hrows

namespace Hypothesis

/-- The members of a written hypothesis. -/
def members (h : Hypothesis) : Json.Fields :=
  ("score", .float h.score) :: ("tokens", .texts h.tokens) ::
    h.attention.toList.map fun m => ("attention", m.toValue)

theorem toValue_eq (h : Hypothesis) : h.toValue = .object h.members := by
  obtain ⟨score, tokens, attention⟩ := h
  cases attention <;> rfl

theorem fields?_toValue (h : Hypothesis) : h.toValue.fields? fieldNames = some h.members := by
  rw [toValue_eq]
  refine Json.fields?_object ?_ ?_ <;> unfold members <;> cases h.attention <;> simp [fieldNames]

theorem required_score (h : Hypothesis) :
    h.members.required "score" Value.toFloat? = (Value.float h.score).toFloat? := rfl

theorem required_tokens (h : Hypothesis) :
    h.members.required "tokens" Value.toTexts? = some h.tokens :=
  Json.readsBack_texts h.tokens

/-- Missing attention is not written, and what is not written is missing. -/
theorem optional_attention (h : Hypothesis) :
    h.members.optional "attention" attentionOfValue? none =
      match h.attention with
      | none => some none
      | some m => (Model.Matrix.ofValue? m.toValue).map some := by
  obtain ⟨score, tokens, attention⟩ := h
  cases attention <;> rfl

theorem readsBack_attention {h : Hypothesis}
    (hexact : ∀ x ∈ h.weights, x.isFinite → Value.IsExact x) :
    h.members.optional "attention" attentionOfValue? none =
      if h.weights.all Float32.isFinite then some h.attention else none := by
  rw [optional_attention]
  unfold weights at hexact ⊢
  cases hm : h.attention with
  | none => rfl
  | some m =>
    rw [hm] at hexact
    have hmatrix : Model.Matrix.ofValue? m.toValue = _ := Model.Matrix.readsBack hexact
    by_cases hfinite : m.numbers.all Float32.isFinite <;>
      simp [-List.all_eq_true, hmatrix, hfinite]

theorem readsBack {h : Hypothesis} (hexact : ∀ x ∈ h.numbers, x.isFinite → Value.IsExact x) :
    ReadsBack toValue ofValue? (·.numbers.all Float32.isFinite) h := by
  have hscore : (Value.float h.score).toFloat? = _ :=
    Value.readsBack_float (hexact h.score List.mem_cons_self)
  have hattention := readsBack_attention fun x hx => hexact x (List.mem_cons_of_mem h.score hx)
  simp only [ReadsBack, ofValue?, fields?_toValue, required_score, required_tokens, hattention,
    hscore, Option.bind_eq_bind, Option.bind_some]
  by_cases hfinite : h.score.isFinite <;> by_cases hweights : h.weights.all Float32.isFinite <;>
    simp [-List.all_eq_true, numbers, hfinite, hweights]

end Hypothesis

theorem ItemResult.readsBack {r : ItemResult}
    (hexact : ∀ x ∈ r.numbers, x.isFinite → Value.IsExact x) :
    ReadsBack ItemResult.toValue ItemResult.ofValue? (·.numbers.all Float32.isFinite) r := by
  have hitems : ∀ h ∈ r.hypotheses, ReadsBack _ Hypothesis.ofValue? _ h := fun h hh =>
    Hypothesis.readsBack fun x hx => hexact x (List.mem_flatMap.mpr ⟨h, hh, hx⟩)
  simpa [ReadsBack, ItemResult.toValue, ItemResult.ofValue?, ItemResult.numbers] using
    (ReadsBack.toList? hitems).map ItemResult.mk ItemResult.hypotheses rfl

theorem BatchResult.readsBack {b : BatchResult}
    (hexact : ∀ x ∈ b.numbers, x.isFinite → Value.IsExact x) :
    ReadsBack BatchResult.toValue BatchResult.ofValue? (·.numbers.all Float32.isFinite) b := by
  have hresults : ∀ r ∈ b.results, ReadsBack _ ItemResult.ofValue? _ r := fun r hr =>
    ItemResult.readsBack fun x hx => hexact x (List.mem_flatMap.mpr ⟨r, hr, hx⟩)
  simpa [ReadsBack, BatchResult.toValue, BatchResult.ofValue?, BatchResult.numbers] using
    (ReadsBack.toList? hresults).map BatchResult.mk BatchResult.results rfl

/-! ## Texts -/

namespace BatchResult

/-- What is read back from the text of a batch result. -/
theorem parse?_print {b : BatchResult} (hexact : ∀ x ∈ b.numbers, x.isFinite → Value.IsExact x) :
    parse? b.print = if b.numbers.all Float32.isFinite then some b else none := by
  rw [parse?, print, Json.parse?_print, Option.bind_some]
  exact readsBack hexact

end BatchResult

/-! ## Shapes -/

/-- What a hypothesis says besides its numbers: its tokens and the lengths of the rows of
its attention, if there is any. -/
def Hypothesis.shape (h : Hypothesis) : Item × Option (List Nat) :=
  (h.tokens, h.attention.map fun m => m.map List.length)

def BatchResult.shape (b : BatchResult) : List (List (Item × Option (List Nat))) :=
  b.results.map fun r => r.hypotheses.map Hypothesis.shape

private theorem map_eq_of_map_eq {α β γ : Type} {f : α → β} {g : α → γ}
    (h : ∀ x y, f x = f y → g x = g y) :
    ∀ {xs ys : List α}, xs.map f = ys.map f → xs.map g = ys.map g
  | [], [], _ => rfl
  | x :: xs, y :: ys, heq => by
    obtain ⟨hhead, htail⟩ := List.cons.inj heq
    rw [List.map_cons, List.map_cons, h x y hhead, map_eq_of_map_eq h htail]

theorem Model.Matrix.lengths_eq_of_toValue {m n : Model.Matrix} (heq : m.toValue = n.toValue) :
    m.map List.length = n.map List.length := by
  refine map_eq_of_map_eq (fun row row' hrow => ?_) (Value.arr.inj heq)
  simpa using congrArg List.length (Value.arr.inj hrow)

theorem Hypothesis.members_eq_of_toValue {g h : Hypothesis} (heq : g.toValue = h.toValue) :
    g.members = h.members := by
  have hfields := fields?_toValue g
  rw [heq, fields?_toValue h] at hfields
  exact (Option.some.inj hfields).symm

theorem Hypothesis.shape_eq_of_toValue {g h : Hypothesis} (heq : g.toValue = h.toValue) :
    g.shape = h.shape := by
  have hmembers := members_eq_of_toValue heq
  have htokens : g.tokens = h.tokens := by
    have hread := required_tokens g
    rw [hmembers, required_tokens h] at hread
    exact (Option.some.inj hread).symm
  -- what stands behind the score and the tokens
  have hlast := (List.cons.inj (List.cons.inj hmembers).2).2
  have hattention : g.attention.map (·.map List.length) = h.attention.map (·.map List.length) := by
    generalize g.attention = a at hlast ⊢
    generalize h.attention = c at hlast ⊢
    match a, c with
    | none, none => rfl
    | none, some _ | some _, none => cases hlast
    | some m, some n =>
      have hmatrix := (Prod.mk.inj (List.cons.inj hlast).1).2
      exact congrArg some (Model.Matrix.lengths_eq_of_toValue hmatrix)
  exact Prod.ext htokens hattention

theorem BatchResult.shape_eq_of_toValue {b c : BatchResult} (heq : b.toValue = c.toValue) :
    b.shape = c.shape := by
  refine map_eq_of_map_eq (fun r s hr => ?_) (Value.arr.inj heq)
  exact map_eq_of_map_eq (fun _ _ => Hypothesis.shape_eq_of_toValue) (Value.arr.inj hr)

/-! ## The format -/

namespace BatchResult

/-- What the text of a batch result tells about it. -/
structure Faithful (b : BatchResult) : Prop where
  parse_eq_iff : parse? b.print = some b ↔ ∀ x ∈ b.numbers, x.isFinite
  parse_eq_none : ∀ x ∈ b.numbers, ¬x.isFinite → parse? b.print = none
  print_inj : (∀ x ∈ b.numbers, x.isFinite) →
    ∀ c : BatchResult, (∀ x ∈ c.numbers, x.isFinite ∧ Value.IsExact x) →
      b.print = c.print → b = c
  /-- Missing attention, a matrix without rows and rows without weights are written in
  different ways. -/
  shape_eq : ∀ c : BatchResult, b.print = c.print → b.shape = c.shape

theorem faithful (b : BatchResult)
    (hexact : ∀ x ∈ b.numbers, x.isFinite → Value.IsExact x) : Faithful b where
  parse_eq_iff := by
    rw [parse?_print hexact, ← List.all_eq_true]
    split <;> simp_all
  parse_eq_none x hx hinfinite := by
    rw [parse?_print hexact, if_neg]
    exact fun hall => hinfinite (List.all_eq_true.mp hall x hx)
  print_inj hfinite c hc heq := by
    have hread := parse?_print hexact
    rw [heq, parse?_print fun x hx _ => (hc x hx).2, if_pos (List.all_eq_true.mpr hfinite),
      if_pos (List.all_eq_true.mpr fun x hx => (hc x hx).1)] at hread
    exact (Option.some.inj hread).symm
  shape_eq _ heq := shape_eq_of_toValue (Json.print_injective heq)

/-- A result with ragged attention and one without, and an item without hypotheses. -/
def raggedResult : BatchResult :=
  ⟨[⟨[{ score := -0.5, tokens := ["\"\\\n", "\u2581😀"], attention := some [[0.25, 0.75], []] },
      { score := -1.25, tokens := [] }]⟩,
    ⟨[]⟩]⟩

theorem faithful_raggedResult :
    (∀ x ∈ raggedResult.numbers, x.isFinite) ∧ Faithful raggedResult :=
  ⟨by decide +kernel, faithful raggedResult (by decide +kernel)⟩

end BatchResult

end DecodingDesk

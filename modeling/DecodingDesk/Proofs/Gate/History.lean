import DecodingDesk.Proofs.Gate.Visits
import Mathlib.Data.List.TakeWhile
/-!
# The counter and the history of a house

Whether a future keeps somebody inside the gate can be read off the operations since
it was made: a run future does from its first poll until it is completed or dropped,
blocking work from the poll that handed it over until it ends, whatever its caller
does meanwhile.  The counter is the number of these and of the guards, and what a
future answers is what went into it.
-/

namespace DecodingDesk.Gate

variable {α : Type}

namespace Op

def makesRun : Op α → Bool
  | createRun => true
  | _ => false

def makesBlocking : Op α → Bool
  | createBlocking => true
  | _ => false

def pollsRun (i : Nat) : Op α → Bool
  | pollRun k _ => k = i
  | _ => false

/-- Whether a run future is dropped, or polled when what is inside it is ready. -/
def endsRun (i : Nat) : Op α → Bool
  | pollRun k (some _) | dropRun k => k = i
  | _ => false

def pollsBlocking (i : Nat) : Op α → Bool
  | pollBlocking k _ => k = i
  | _ => false

def dropsBlocking (i : Nat) : Op α → Bool
  | dropBlocking k => k = i
  | _ => false

/-- Whether the caller of blocking work polls or drops his future. -/
def usesBlocking (i : Nat) : Op α → Bool
  | pollBlocking k _ | dropBlocking k => k = i
  | _ => false

def ending? (i : Nat) : Op α → Option (Ending α)
  | endWork k e => if k = i then some e else none
  | _ => none

end Op

/-! ## Reading a history -/

/-- The operations since the future with a number was made, if it was made. -/
def since (makes : Op α → Bool) : List (Op α) → Nat → Option (List (Op α))
  | [], _ => none
  | op :: ops, i =>
    if makes op then
      match i with
      | 0 => some ops
      | i + 1 => since makes ops i
    else since makes ops i

/-- What the operations since it was made say about a run future. -/
def Run.after (i : Nat) (later : List (Op α)) : Run :=
  if later.any (Op.endsRun i) then .over
  else if later.any (Op.pollsRun i) then .inside
  else .created

/-- Whether a future that waits for blocking work was polled after the work had ended. -/
def isAnswered (i : Nat) (later : List (Op α)) : Bool :=
  (later.dropWhile fun op => (op.ending? i).isNone).any (Op.pollsBlocking i)

/-- What the operations since it was made say about blocking work and the future that waits
for it.  What the caller does first decides whether the work is handed over.  Then its first
ending counts, and the future is over when it is dropped or has answered. -/
def Blocking.after (i : Nat) (later : List (Op α)) : Blocking α :=
  match later.dropWhile fun op => !op.usesBlocking i with
  | [] => {}
  | .pollBlocking _ true :: rest =>
    ⟨if rest.any (Op.dropsBlocking i) || isAnswered i rest then .over else .inside,
      (rest.findSome? (Op.ending? i)).elim .running .ended⟩
  | .pollBlocking _ false :: _ => ⟨.over, .refused⟩
  | _ => ⟨.over, .unsent⟩

def run? (ops : List (Op α)) (i : Nat) : Option Run :=
  (since Op.makesRun ops i).map (Run.after i)

def blocking? (ops : List (Op α)) (i : Nat) : Option (Blocking α) :=
  (since Op.makesBlocking ops i).map (Blocking.after i)

/-- Whether a run future was polled and neither completed nor dropped. -/
def isOpen (ops : List (Op α)) (i : Nat) : Bool :=
  run? ops i = some .inside

/-- Whether blocking work was taken and has not ended. -/
def isUnfinished (ops : List (Op α)) (i : Nat) : Bool :=
  (blocking? ops i).any House.isRunning

/-- The guards that were handed out and not dropped. -/
def liveGuards (ops : List (Op α)) : Nat :=
  ops.foldl (fun n op =>
    match op with
    | .enter => n + 1
    | .dropGuard => n - 1
    | _ => n) 0

def openRuns (ops : List (Op α)) : Nat :=
  (List.range (ops.countP Op.makesRun)).countP (isOpen ops)

def unfinishedWork (ops : List (Op α)) : Nat :=
  (List.range (ops.countP Op.makesBlocking)).countP (isUnfinished ops)

theorem since_concat (makes : Op α → Bool) (ops : List (Op α)) (op : Op α) (i : Nat) :
    since makes (ops ++ [op]) i =
      ((since makes ops i).map (· ++ [op])).or
        (if makes op ∧ i = ops.countP makes then some [] else none) := by
  induction ops generalizing i with
  | nil => cases i <;> simp [since]
  | cons first ops ih =>
    by_cases hmakes : makes first
    · cases i with
      | zero => simp [since, hmakes]
      | succ i => simp [since, hmakes, ih]
    · simp [since, hmakes, ih]

/-! ## One operation and one run future -/

/-- What an operation makes of the run future with a number. -/
def Run.next (i : Nat) (op : Op α) (r : Run) : Run :=
  if op.endsRun i then .over else if r = .created ∧ op.pollsRun i then .inside else r

theorem Run.after_concat (i : Nat) (later : List (Op α)) (op : Op α) :
    Run.after i (later ++ [op]) = (Run.after i later).next i op := by
  by_cases hends : later.any (Op.endsRun i) <;> by_cases hpolls : later.any (Op.pollsRun i) <;>
    simp [Run.after, Run.next, hends, hpolls]

/-- An operation that does not name a future leaves it alone. -/
theorem Run.next_eq_id {i : Nat} {op : Op α} (hpolls : op.pollsRun i = false)
    (hends : op.endsRun i = false) : Run.next i op = id := by
  funext r
  simp [Run.next, hpolls, hends]

namespace House

theorem runs_pollRun (h : House α) (k : Nat) (inner : Option α) (i : Nat) :
    (h.pollRun k inner).1.runs[i]? = (h.runs[i]?).map (Run.next i (.pollRun k inner)) := by
  by_cases hk : k = i
  · subst hk
    cases hi : h.runs[k]? with
    | none => simp [House.pollRun, hi]
    | some r =>
      have hset := getElem?_set_of_getElem? hi
      cases r <;> cases inner <;>
        simp [House.pollRun, hi, hset, Run.next, Op.endsRun, Op.pollsRun]
  · rw [Run.next_eq_id (by simp [Op.pollsRun, hk]) (by cases inner <;> simp [Op.endsRun, hk]),
      Option.map_id, id]
    unfold House.pollRun
    split <;> simp only [List.getElem?_set_ne hk]

theorem runs_dropRun (h : House α) (k i : Nat) :
    (h.dropRun k).runs[i]? = (h.runs[i]?).map (Run.next i (.dropRun (α := α) k)) := by
  by_cases hk : k = i
  · subst hk
    cases hi : h.runs[k]? with
    | none => simp [House.dropRun, hi]
    | some r =>
      have hset := getElem?_set_of_getElem? hi
      cases r <;> simp [House.dropRun, hi, hset, Run.next, Op.endsRun]
  · rw [Run.next_eq_id (by simp [Op.pollsRun]) (by simp [Op.endsRun, hk]), Option.map_id, id]
    unfold House.dropRun
    split <;> simp only [List.getElem?_set_ne hk]

theorem runs_pollBlocking (h : House α) (k : Nat) (accepts : Bool) :
    (h.pollBlocking k accepts).1.runs = h.runs := by
  unfold House.pollBlocking
  split
  · split <;> rfl
  all_goals rfl

theorem runs_endWork (h : House α) (k : Nat) (e : Ending α) : (h.endWork k e).runs = h.runs := by
  unfold House.endWork
  split <;> rfl

theorem runs_dropBlocking (h : House α) (k : Nat) : (h.dropBlocking k).runs = h.runs := by
  unfold House.dropBlocking
  split <;> rfl

theorem runs_pollDrained (h : House α) (k : Nat) : (h.pollDrained k).1.runs = h.runs := by
  unfold House.pollDrained
  split <;> rfl

theorem getElem?_runs_apply (h : House α) (op : Op α) (i : Nat) :
    (h.apply op).1.runs[i]? =
      ((h.runs[i]?).map (Run.next i op)).or
        (if op.makesRun ∧ i = h.runs.length then some .created else none) := by
  cases op with
  | createRun =>
    rw [Run.next_eq_id rfl rfl, Option.map_id, id]
    simpa [apply, Op.makesRun] using getElem?_concat h.runs .created i
  | pollRun k inner => simp [apply, runs_pollRun, Op.makesRun]
  | dropRun k => simp [apply, runs_dropRun, Op.makesRun]
  | dropGuard =>
    rw [Run.next_eq_id rfl rfl, Option.map_id, id]
    simp only [apply]
    split <;> simp [Op.makesRun]
  | enter | createBlocking | pollBlocking | endWork | dropBlocking | createDrained | pollDrained
  | dropDrained =>
    rw [Run.next_eq_id rfl rfl, Option.map_id, id]
    simp [apply, Op.makesRun, runs_pollBlocking, runs_endWork, runs_dropBlocking, runs_pollDrained]

theorem length_runs_apply (h : House α) (op : Op α) :
    (h.apply op).1.runs.length = h.runs.length + if op.makesRun then 1 else 0 := by
  cases op with
  | createRun => simp [apply, Op.makesRun]
  | pollRun k inner =>
    simp only [apply, House.pollRun]
    split <;> simp [Op.makesRun]
  | dropRun k =>
    simp only [apply, House.dropRun]
    split <;> simp [Op.makesRun]
  | dropGuard =>
    simp only [apply]
    split <;> simp [Op.makesRun]
  | enter | createBlocking | pollBlocking | endWork | dropBlocking | createDrained | pollDrained
  | dropDrained =>
    simp [apply, Op.makesRun, runs_pollBlocking, runs_endWork, runs_dropBlocking, runs_pollDrained]

end House

/-! ## One operation and blocking work -/

/-- What an operation makes of the blocking work with a number and of the future that waits
for it. -/
def Blocking.next (i : Nat) (op : Op α) (b : Blocking α) : Blocking α :=
  match op, b with
  | .pollBlocking k accepts, ⟨.created, work⟩ =>
    if k = i then if accepts then ⟨.inside, .running⟩ else ⟨.over, .refused⟩ else ⟨.created, work⟩
  | .pollBlocking k _, ⟨.inside, .ended e⟩ => ⟨if k = i then .over else .inside, .ended e⟩
  | .endWork k e, ⟨caller, .running⟩ => ⟨caller, if k = i then .ended e else .running⟩
  | .dropBlocking k, ⟨caller, work⟩ => ⟨if k = i then .over else caller, work⟩
  | _, b => b

theorem Blocking.next_eq_id {i : Nat} {op : Op α} (huses : op.usesBlocking i = false)
    (hending : op.ending? i = none) : Blocking.next i op = id := by
  funext b
  obtain ⟨caller, work⟩ := b
  cases op with
  | pollBlocking k accepts =>
    have hk : k ≠ i := by simpa [Op.usesBlocking] using huses
    cases caller <;> cases work <;> simp [Blocking.next, hk]
  | endWork k e =>
    have hk : k ≠ i := by
      rintro rfl
      simp [Op.ending?] at hending
    cases work <;> simp [Blocking.next, hk]
  | dropBlocking k =>
    have hk : k ≠ i := by simpa [Op.usesBlocking] using huses
    simp [Blocking.next, hk]
  | _ => rfl

namespace House

theorem blockings_pollBlocking (h : House α) (k : Nat) (accepts : Bool) (i : Nat) :
    (h.pollBlocking k accepts).1.blockings[i]? =
      (h.blockings[i]?).map (Blocking.next i (.pollBlocking k accepts)) := by
  by_cases hk : k = i
  · subst hk
    cases hi : h.blockings[k]? with
    | none => simp [House.pollBlocking, hi]
    | some b =>
      have hset := getElem?_set_of_getElem? hi
      obtain ⟨caller, work⟩ := b
      cases caller <;> cases work <;> cases accepts <;>
        simp [House.pollBlocking, hi, hset, Blocking.next]
  · rw [Blocking.next_eq_id (by simp [Op.usesBlocking, hk]) rfl, Option.map_id, id]
    unfold House.pollBlocking
    split
    · split <;> simp only [List.getElem?_set_ne hk]
    all_goals simp only [List.getElem?_set_ne hk]

theorem blockings_endWork (h : House α) (k : Nat) (e : Ending α) (i : Nat) :
    (h.endWork k e).blockings[i]? = (h.blockings[i]?).map (Blocking.next i (.endWork k e)) := by
  by_cases hk : k = i
  · subst hk
    cases hi : h.blockings[k]? with
    | none => simp [House.endWork, hi]
    | some b =>
      have hset := getElem?_set_of_getElem? hi
      obtain ⟨caller, work⟩ := b
      cases work <;> simp [House.endWork, hi, hset, Blocking.next]
  · rw [Blocking.next_eq_id rfl (by simp [Op.ending?, hk]), Option.map_id, id]
    unfold House.endWork
    split <;> simp only [List.getElem?_set_ne hk]

theorem blockings_dropBlocking (h : House α) (k i : Nat) :
    (h.dropBlocking k).blockings[i]? =
      (h.blockings[i]?).map (Blocking.next i (.dropBlocking k)) := by
  by_cases hk : k = i
  · subst hk
    cases hi : h.blockings[k]? with
    | none => simp [House.dropBlocking, hi]
    | some b =>
      have hset := getElem?_set_of_getElem? hi
      simp [House.dropBlocking, hi, hset, Blocking.next]
  · rw [Blocking.next_eq_id (by simp [Op.usesBlocking, hk]) rfl, Option.map_id, id]
    unfold House.dropBlocking
    split <;> simp only [List.getElem?_set_ne hk]

theorem blockings_pollRun (h : House α) (k : Nat) (inner : Option α) :
    (h.pollRun k inner).1.blockings = h.blockings := by
  unfold House.pollRun
  split <;> rfl

theorem blockings_dropRun (h : House α) (k : Nat) : (h.dropRun k).blockings = h.blockings := by
  unfold House.dropRun
  split <;> rfl

theorem blockings_pollDrained (h : House α) (k : Nat) :
    (h.pollDrained k).1.blockings = h.blockings := by
  unfold House.pollDrained
  split <;> rfl

theorem getElem?_blockings_apply (h : House α) (op : Op α) (i : Nat) :
    (h.apply op).1.blockings[i]? =
      ((h.blockings[i]?).map (Blocking.next i op)).or
        (if op.makesBlocking ∧ i = h.blockings.length then some {} else none) := by
  cases op with
  | createBlocking =>
    rw [Blocking.next_eq_id rfl rfl, Option.map_id, id]
    simpa [apply, Op.makesBlocking] using getElem?_concat h.blockings {} i
  | pollBlocking k accepts => simp [apply, blockings_pollBlocking, Op.makesBlocking]
  | endWork k e => simp [apply, blockings_endWork, Op.makesBlocking]
  | dropBlocking k => simp [apply, blockings_dropBlocking, Op.makesBlocking]
  | dropGuard =>
    rw [Blocking.next_eq_id rfl rfl, Option.map_id, id]
    simp only [apply]
    split <;> simp [Op.makesBlocking]
  | enter | createRun | pollRun | dropRun | createDrained | pollDrained | dropDrained =>
    rw [Blocking.next_eq_id rfl rfl, Option.map_id, id]
    simp [apply, Op.makesBlocking, blockings_pollRun, blockings_dropRun, blockings_pollDrained]

theorem length_blockings_apply (h : House α) (op : Op α) :
    (h.apply op).1.blockings.length = h.blockings.length + if op.makesBlocking then 1 else 0 := by
  cases op with
  | createBlocking => simp [apply, Op.makesBlocking]
  | pollBlocking k accepts =>
    simp only [apply, House.pollBlocking]
    split
    · split <;> simp [Op.makesBlocking]
    all_goals simp [Op.makesBlocking]
  | endWork k e =>
    simp only [apply, House.endWork]
    split <;> simp [Op.makesBlocking]
  | dropBlocking k =>
    simp only [apply, House.dropBlocking]
    split <;> simp [Op.makesBlocking]
  | dropGuard =>
    simp only [apply]
    split <;> simp [Op.makesBlocking]
  | enter | createRun | pollRun | dropRun | createDrained | pollDrained | dropDrained =>
    simp [apply, Op.makesBlocking, blockings_pollRun, blockings_dropRun, blockings_pollDrained]

end House

private theorem dropWhile_eq_nil {i : Nat} {later : List (Op α)}
    (hending : later.findSome? (Op.ending? i) = none) :
    (later.dropWhile fun op => (op.ending? i).isNone) = [] := by
  rw [List.dropWhile_eq_nil_iff]
  intro op hop
  exact Option.isNone_iff_eq_none.mpr (List.findSome?_eq_none_iff.mp hending op hop)

private theorem dropWhile_ne_nil {i : Nat} {later : List (Op α)} {e : Ending α}
    (hending : later.findSome? (Op.ending? i) = some e) :
    (later.dropWhile fun op => (op.ending? i).isNone) ≠ [] := by
  rw [Ne, List.dropWhile_eq_nil_iff]
  intro hnone
  obtain ⟨op, hop, he⟩ := List.exists_of_findSome?_eq_some hending
  have := hnone op hop
  rw [he] at this
  exact Bool.noConfusion this

/-- Only a poll after an ending answers. -/
theorem isAnswered_concat (i : Nat) (later : List (Op α)) (op : Op α) :
    isAnswered i (later ++ [op]) =
      (isAnswered i later ||
        ((later.findSome? (Op.ending? i)).isSome && op.pollsBlocking i)) := by
  unfold isAnswered
  rw [List.dropWhile_append]
  cases hending : later.findSome? (Op.ending? i) with
  | none =>
    rw [dropWhile_eq_nil hending]
    cases op with
    | endWork k e => by_cases hk : k = i <;> simp [Op.ending?, Op.pollsBlocking, hk]
    | _ => simp [Op.ending?]
  | some e =>
    obtain ⟨first, rest, hrest⟩ := List.exists_cons_of_ne_nil (dropWhile_ne_nil hending)
    simp [hrest, Bool.or_assoc]

theorem Blocking.after_concat (i : Nat) (later : List (Op α)) (op : Op α) :
    Blocking.after i (later ++ [op]) = (Blocking.after i later).next i op := by
  unfold Blocking.after
  rw [List.dropWhile_append]
  cases hdrop : later.dropWhile fun op => !op.usesBlocking i with
  | nil =>
    -- nobody has used the future yet
    cases op with
    | pollBlocking k accepts =>
      by_cases hk : k = i <;> cases accepts <;>
        simp [Op.usesBlocking, Blocking.next, isAnswered, hk]
    | dropBlocking k =>
      by_cases hk : k = i <;> simp [Op.usesBlocking, Blocking.next, hk]
    | _ => simp [Op.usesBlocking, Blocking.next]
  | cons first rest =>
    simp only [List.isEmpty_cons, Bool.false_eq_true, if_false, List.cons_append]
    cases first with
    | pollBlocking _ accepts =>
      cases accepts with
      | true =>
        simp only [List.any_append, List.findSome?_append, isAnswered_concat]
        generalize rest.any (Op.dropsBlocking i) = dropped
        generalize isAnswered i rest = answered
        generalize rest.findSome? (Op.ending? i) = ending
        cases op with
        | pollBlocking k _ =>
          by_cases hk : k = i <;> cases dropped <;> cases answered <;> cases ending <;>
            simp [Op.pollsBlocking, Op.dropsBlocking, Op.ending?, Blocking.next, hk]
        | endWork k e =>
          by_cases hk : k = i <;> cases ending <;>
            simp [Op.pollsBlocking, Op.dropsBlocking, Op.ending?, Blocking.next, hk]
        | dropBlocking k =>
          by_cases hk : k = i <;>
            simp [Op.pollsBlocking, Op.dropsBlocking, Op.ending?, Blocking.next, hk]
        | _ => cases ending <;> simp [Op.pollsBlocking, Op.dropsBlocking, Op.ending?, Blocking.next]
      | false => cases op <;> simp [Blocking.next]
    | _ => cases op <;> simp [Blocking.next]

/-- Work whose future nobody has used is where it began. -/
theorem Blocking.after_eq_new {i : Nat} {later : List (Op α)}
    (hcaller : (Blocking.after i later).caller = .created) : Blocking.after i later = {} := by
  unfold Blocking.after at hcaller ⊢
  split
  · rfl
  · rename_i hdrop
    rw [hdrop] at hcaller
    simp only at hcaller
    split at hcaller <;> cases hcaller
  · rename_i hdrop
    rw [hdrop] at hcaller
    cases hcaller
  · rename_i hnil htaken hrefused
    split at hcaller <;> simp_all

/-! ## Whole histories -/

namespace House

theorem applyAll_concat (h : House α) (ops : List (Op α)) (op : Op α) :
    h.applyAll (ops ++ [op]) = ((h.applyAll ops).apply op).1 := by
  simp [applyAll]

theorem length_runs (ops : List (Op α)) :
    (applyAll {} ops).runs.length = ops.countP Op.makesRun := by
  induction ops using List.reverseRecOn with
  | nil => rfl
  | append_singleton ops op ih =>
    rw [applyAll_concat, length_runs_apply, ih, List.countP_append, List.countP_singleton]

theorem length_blockings (ops : List (Op α)) :
    (applyAll {} ops).blockings.length = ops.countP Op.makesBlocking := by
  induction ops using List.reverseRecOn with
  | nil => rfl
  | append_singleton ops op ih =>
    rw [applyAll_concat, length_blockings_apply, ih, List.countP_append, List.countP_singleton]

/-- A run future is as far as the operations since it was made say. -/
theorem getElem?_runs (ops : List (Op α)) (i : Nat) :
    (applyAll {} ops).runs[i]? = run? ops i := by
  unfold run?
  induction ops using List.reverseRecOn with
  | nil => rfl
  | append_singleton ops op ih =>
    rw [applyAll_concat, getElem?_runs_apply, ih, length_runs, since_concat, Option.map_or,
      Option.map_map, Option.map_map]
    congr 1
    · congr 1
      funext later
      exact (Run.after_concat i later op).symm
    · split <;> rfl

/-- So is blocking work, and the future that waits for it. -/
theorem getElem?_blockings (ops : List (Op α)) (i : Nat) :
    (applyAll {} ops).blockings[i]? = blocking? ops i := by
  unfold blocking?
  induction ops using List.reverseRecOn with
  | nil => rfl
  | append_singleton ops op ih =>
    rw [applyAll_concat, getElem?_blockings_apply, ih, length_blockings, since_concat,
      Option.map_or, Option.map_map, Option.map_map]
    congr 1
    · congr 1
      funext later
      exact (Blocking.after_concat i later op).symm
    · split <;> rfl

end House

end DecodingDesk.Gate

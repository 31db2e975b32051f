import DecodingDesk.Gate
import Mathlib.Logic.Relation
/-!
# Waiting for an empty gate

A waiter is done only when it has itself read a counter that is zero.  One that has
read another value and was not woken since then has not been overlooked: either
somebody is inside, or somebody who left last has still to wake the waiters.  So when
nobody is half way out, looking at a waiter finishes it exactly if the gate is empty.
-/

namespace DecodingDesk

namespace Waiter

def isWaiting : Waiter → Bool
  | done | gone => false
  | _ => true

theorem wake_eq_done {w : Waiter} (h : w.wake = done) : w = done := by
  cases w <;> cases h
  rfl

theorem wake_ne_parked {w : Waiter} : w.wake ≠ parked false := by
  cases w <;> simp [wake]

theorem step?_eq_done {count : Nat} {w : Waiter} (h : w.step? count = some done) :
    count = 0 ∧ ∃ woken, w = registered woken := by
  cases w with
  | registered woken =>
    by_cases hcount : count = 0
    · exact ⟨hcount, woken, rfl⟩
    · simp [step?, hcount] at h
  | parked woken => cases woken <;> cases h
  | idle | done | gone => cases h

theorem step?_eq_parked {count : Nat} {w : Waiter} (h : w.step? count = some (parked false)) :
    0 < count := by
  cases w with
  | registered woken =>
    apply Nat.pos_of_ne_zero
    rintro rfl
    cases h
  | parked woken => cases woken <;> cases h
  | idle | done | gone => cases h

/-- Looking at a waiter takes it as far as it gets by itself. -/
theorem step?_poll (count : Nat) (w : Waiter) : (w.poll count).step? count = none := by
  by_cases hcount : count = 0
  · cases w with
    | parked woken => cases woken <;> simp [poll, advance, step?, hcount]
    | _ => simp [poll, advance, step?, hcount]
  · cases w with
    | registered woken | parked woken => cases woken <;> simp [poll, advance, step?, hcount]
    | _ => simp [poll, advance, step?, hcount]

/-- Only a waiter that sleeps does not get as far as reading the counter. -/
theorem poll_eq_done_iff {count : Nat} {w : Waiter} (hwaits : w.isWaiting = true)
    (hparked : w = parked false → 0 < count) : w.poll count = done ↔ count = 0 := by
  by_cases hcount : count = 0
  · cases w with
    | idle | registered woken => simp [poll, advance, step?, hcount]
    | parked woken =>
      cases woken with
      | false => exact absurd hcount (Nat.ne_of_gt (hparked rfl))
      | true => simp [poll, advance, step?, hcount]
    | done | gone => cases hwaits
  · cases w with
    | idle => simp [poll, advance, step?, hcount]
    | registered woken | parked woken => cases woken <;> simp [poll, advance, step?, hcount]
    | done | gone => cases hwaits

end Waiter

namespace Gate

variable {g g' : Gate} {a : Action} {i : Nat}

/-- The gates that can come about from one. -/
def Later : Gate → Gate → Prop :=
  Relation.ReflTransGen fun g g' => ∃ a, g.step? a = some g'

/-! ## Nobody is overlooked -/

/-- Who sleeps has somebody to wake him. -/
def Watched (g : Gate) : Prop :=
  .parked false ∈ g.waiters → 0 < g.inFlight ∨ 0 < g.owed

theorem inFlight_or_owed_of_decrement? (h : g.decrement? = some g') :
    0 < g'.inFlight ∨ 0 < g'.owed := by
  unfold decrement? at h
  split at h
  · cases h
  · rename_i n hn
    cases h
    cases n with
    | zero => exact .inr (Nat.succ_pos _)
    | succ n => exact .inl (Nat.succ_pos n)

theorem Watched.step (h : g.Watched) (hstep : g.step? a = some g') : g'.Watched := by
  intro hparked
  cases a with
  | enter =>
    cases hstep
    exact .inl (Nat.succ_pos _)
  | decrement => exact inFlight_or_owed_of_decrement? hstep
  | notify =>
    rw [waiters_notify? hstep] at hparked
    obtain ⟨w, -, hwake⟩ := List.mem_map.mp hparked
    exact absurd hwake Waiter.wake_ne_parked
  | addWaiter =>
    cases hstep
    rcases List.mem_append.mp hparked with hparked | hidle
    · exact h hparked
    · cases List.mem_singleton.mp hidle
  | stepWaiter i =>
    obtain ⟨w, w', -, hw', rfl⟩ := stepWaiter?_eq_some hstep
    rcases List.mem_or_eq_of_mem_set hparked with hparked | rfl
    · exact h hparked
    · exact .inl (Waiter.step?_eq_parked hw')
  | dropWaiter i =>
    cases hstep
    rcases List.mem_or_eq_of_mem_set hparked with hparked | hgone
    · exact h hparked
    · cases hgone

theorem Reachable.watched (h : Reachable g) : g.Watched := by
  induction h with
  | initial => exact fun hparked => by cases hparked
  | step a _ hstep ih => exact ih.step hstep

/-! ## Nobody is done too early -/

/-- A waiter that becomes done has just read a counter that is zero. -/
theorem read_of_step? (hstep : g.step? a = some g') (hbefore : g.waiters[i]? ≠ some .done)
    (hafter : g'.waiters[i]? = some .done) :
    a = .stepWaiter i ∧ g.inFlight = 0 ∧ ∃ woken, g.waiters[i]? = some (.registered woken) := by
  cases a with
  | enter =>
    cases hstep
    exact absurd hafter hbefore
  | decrement => exact absurd (waiters_decrement? hstep ▸ hafter) hbefore
  | notify =>
    rw [waiters_notify? hstep, List.getElem?_map] at hafter
    obtain ⟨w, hw, hwake⟩ := Option.map_eq_some_iff.mp hafter
    exact absurd (Waiter.wake_eq_done hwake ▸ hw) hbefore
  | addWaiter =>
    cases hstep
    rw [addWaiter, List.getElem?_append] at hafter
    split at hafter
    · exact absurd hafter hbefore
    · cases List.mem_singleton.mp (List.mem_of_getElem? hafter)
  | stepWaiter k =>
    obtain ⟨w, w', hw, hw', rfl⟩ := stepWaiter?_eq_some hstep
    by_cases hsame : k = i
    · subst hsame
      rw [List.getElem?_set_self (List.getElem?_eq_some_iff.mp hw).1] at hafter
      cases hafter
      obtain ⟨hzero, woken, rfl⟩ := Waiter.step?_eq_done hw'
      exact ⟨rfl, hzero, woken, hw⟩
    · rw [List.getElem?_set_ne hsame] at hafter
      exact absurd hafter hbefore
  | dropWaiter k =>
    cases hstep
    by_cases hsame : k = i
    · subst hsame
      rw [dropWaiter, List.getElem?_set] at hafter
      split at hafter
      · split at hafter <;> cases hafter
      · exact absurd rfl ‹_›
    · rw [dropWaiter, List.getElem?_set_ne hsame] at hafter
      exact absurd hafter hbefore

theorem Reachable.exists_read (h : Reachable g) (hdone : g.waiters[i]? = some .done) :
    ∃ g₀ g₁ woken, Reachable g₀ ∧ g₀.waiters[i]? = some (.registered woken) ∧ g₀.inFlight = 0 ∧
      g₀.step? (.stepWaiter i) = some g₁ ∧ g₁.waiters[i]? = some .done ∧ Later g₁ g := by
  induction h with
  | initial => cases hdone
  | @step g g' a hreach hstep ih =>
    by_cases hbefore : g.waiters[i]? = some .done
    · obtain ⟨g₀, g₁, woken, hg₀, hread, hzero, hfinish, hdone₁, hlater⟩ := ih hbefore
      exact ⟨g₀, g₁, woken, hg₀, hread, hzero, hfinish, hdone₁, hlater.tail ⟨a, hstep⟩⟩
    · obtain ⟨rfl, hzero, woken, hread⟩ := read_of_step? hstep hbefore hdone
      exact ⟨g, g', woken, hreach, hread, hzero, hstep, hdone, .refl⟩

/-! ## Looking at a waiter -/

/-- The steps of one waiter. -/
def Advances (i : Nat) : Gate → Gate → Prop :=
  Relation.ReflTransGen fun g g' => g.step? (.stepWaiter i) = some g'

private theorem waiters_set_self {w : Waiter} (hw : g.waiters[i]? = some w) :
    { g with waiters := g.waiters.set i w } = g := by
  obtain ⟨hi, rfl⟩ := List.getElem?_eq_some_iff.mp hw
  rw [List.set_getElem_self]

theorem advances_advance (n : Nat) {w : Waiter} (hw : g.waiters[i]? = some w) :
    Advances i g { g with waiters := g.waiters.set i (w.advance g.inFlight n) } := by
  induction n generalizing g w with
  | zero =>
    rw [Waiter.advance, waiters_set_self hw]
    exact .refl
  | succ n ih =>
    rw [Waiter.advance]
    split
    · rw [waiters_set_self hw]
      exact .refl
    · rename_i w' hw'
      have hstep : g.stepWaiter? i = some { g with waiters := g.waiters.set i w' } := by
        simp [stepWaiter?, hw, hw']
      have hset : (g.waiters.set i w')[i]? = some w' :=
        List.getElem?_set_self (List.getElem?_eq_some_iff.mp hw).1
      have hrest := ih (g := { g with waiters := g.waiters.set i w' }) hset
      rw [List.set_set] at hrest
      exact .head hstep hrest

theorem pollWaiter_eq {w : Waiter} (hw : g.waiters[i]? = some w) :
    g.pollWaiter i = { g with waiters := g.waiters.set i (w.poll g.inFlight) } := by
  rw [pollWaiter, List.modify_eq_set, hw]
  rfl

/-- Looking at a waiter is a number of its steps, after which it takes no further one. -/
theorem advances_pollWaiter {w : Waiter} (hw : g.waiters[i]? = some w) :
    Advances i g (g.pollWaiter i) ∧ (g.pollWaiter i).step? (.stepWaiter i) = none := by
  have hi := (List.getElem?_eq_some_iff.mp hw).1
  rw [pollWaiter_eq hw]
  refine ⟨advances_advance 5 hw, ?_⟩
  simp [step?, stepWaiter?, hi, Waiter.step?_poll]

theorem Reachable.pollWaiter_done_iff (h : Reachable g) (howed : g.owed = 0) {w : Waiter}
    (hw : g.waiters[i]? = some w) (hwaits : w.isWaiting = true) :
    (g.pollWaiter i).waiters[i]? = some .done ↔ g.inFlight = 0 := by
  have hi := (List.getElem?_eq_some_iff.mp hw).1
  have hparked : w = .parked false → 0 < g.inFlight := by
    rintro rfl
    refine (h.watched (List.mem_of_getElem? hw)).resolve_right ?_
    rw [howed]
    exact Nat.lt_irrefl 0
  rw [pollWaiter_eq hw, List.getElem?_set_self hi, Option.some.injEq]
  exact Waiter.poll_eq_done_iff hwaits hparked

/-! ## Waiting -/

/-- How waiters fare at a gate. -/
structure Attentive (g : Gate) : Prop where
  /-- Who is done has read a counter that was zero, and that was the last thing he did. -/
  read : ∀ i, g.waiters[i]? = some .done → ∃ g₀ g₁ woken, Reachable g₀ ∧
    g₀.waiters[i]? = some (.registered woken) ∧ g₀.inFlight = 0 ∧
      g₀.step? (.stepWaiter i) = some g₁ ∧ g₁.waiters[i]? = some .done ∧ Later g₁ g
  finish : ∀ (a : Action) (g' : Gate) (i : Nat), g.step? a = some g' →
    g.waiters[i]? ≠ some .done → g'.waiters[i]? = some .done →
      a = .stepWaiter i ∧ g.inFlight = 0 ∧ ∃ woken, g.waiters[i]? = some (.registered woken)
  /-- Who has read another value and was not woken since then is not overlooked. -/
  parked : .parked false ∈ g.waiters → 0 < g.inFlight ∨ 0 < g.owed
  /-- A look is what the waiter does until it sleeps or is done. -/
  poll : ∀ i w, g.waiters[i]? = some w →
    Advances i g (g.pollWaiter i) ∧ (g.pollWaiter i).step? (.stepWaiter i) = none
  /-- When nobody is half way out, a look finds an empty gate and nothing else. -/
  ready : g.owed = 0 → ∀ i w, g.waiters[i]? = some w → w.isWaiting = true →
    ((g.pollWaiter i).waiters[i]? = some .done ↔ g.inFlight = 0)

theorem Reachable.attentive (h : Reachable g) : g.Attentive where
  read _ := h.exists_read
  finish _ _ _ := read_of_step?
  parked := h.watched
  poll _ _ := advances_pollWaiter
  ready howed _ _ := h.pollWaiter_done_iff howed

/-- Two waiters sleep, and the counter has been zero twice: the second visitor came in after
the first had left and before he woke anybody. -/
def twiceEmptied : Gate :=
  { inFlight := 0, owed := 2, waiters := [.parked false, .parked false] }

theorem attentive_twiceEmptied : Reachable twiceEmptied ∧ twiceEmptied.Attentive := by
  have hfirst : Reachable { inFlight := 1, waiters := [.parked false] } :=
    (((Reachable.initial.step .enter rfl).step .addWaiter rfl).step (.stepWaiter 0) rfl).step
      (.stepWaiter 0) rfl
  have hsecond :
      Reachable { inFlight := 1, owed := 1, waiters := [.parked false, .parked false] } :=
    ((((hfirst.step .decrement rfl).step .enter rfl).step .addWaiter rfl).step
      (.stepWaiter 1) rfl).step (.stepWaiter 1) rfl
  have hreach : Reachable twiceEmptied := hsecond.step .decrement rfl
  exact ⟨hreach, hreach.attentive⟩

end Gate

end DecodingDesk

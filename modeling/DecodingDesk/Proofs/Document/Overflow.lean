import DecodingDesk.Proofs.Document.Output
/-!
# An output that may fill up

A device takes bytes until its room is used up, and nothing after that.  So what an output
has received is at every moment a front of what was written, whatever was buffered when it
filled up and whatever is passed on afterwards; and as long as no write has failed, the rest
is in the buffer.  How much a place holds in all does not change, so that what it has in the
end is what was written, cut off where the place is full.
-/

namespace DecodingDesk

open Text (Bytes)

namespace Files

variable {fs : Files} {h : Handle}

/-- Whether what is written through a handle arrives behind what is there, as far as there is
room. -/
def Appends (fs : Files) (h : Handle) : Prop :=
  (∃ content, fs.node? h.place = some (.file content) ∧ h.position = content.length) ∨
    ∃ taken room, fs.node? h.place = some (.device taken room)

/-- Whether a place takes nothing any more. -/
def Full (fs : Files) (place : Place) : Prop :=
  ∃ taken, fs.node? place = some (.device taken (some 0))

theorem appends_of_create {path : String} {opened : Files}
    (hcreate : fs.create path = .ok (h, opened)) : opened.Appends h := by
  obtain ⟨hposition, -, hnode | ⟨taken, room, hnode, rfl⟩⟩ := create_spec hcreate
  · exact .inl ⟨[], hnode, hposition⟩
  · exact .inr ⟨taken, room, hnode⟩

theorem ne_nil_of_device {place : Place} {taken : Bytes} {room : Option Nat}
    (hnode : fs.node? place = some (.device taken room)) : place ≠ [] :=
  ne_nil_of_node? hnode (by simp)

theorem Appends.write (ha : fs.Appends h) (bytes : Bytes) : ∃ count h' fs',
    fs.write h bytes = (count, h', fs') ∧ fs'.Appends h' ∧ h'.place = h.place ∧
      fs'.received h.place = fs.received h.place ++ bytes.take count ∧
      (count = bytes.length ∨ fs'.Full h.place) := by
  rcases ha with hfile | ⟨taken, room, hnode⟩
  · obtain ⟨h', fs', hwrite, -, hplace, hreceived⟩ := Takes.write (.inl hfile) bytes
    refine ⟨bytes.length, h', fs', hwrite, .inl ?_, hplace, ?_, .inl rfl⟩
    · obtain ⟨content, hnode, hposition⟩ := hfile
      have hne : h.place ≠ [] := by
        intro hnil
        rw [hnil] at hnode
        cases hnode
      simp only [Files.write, hnode, Prod.mk.injEq] at hwrite
      obtain ⟨-, rfl, rfl⟩ := hwrite
      refine ⟨_, fs.node?_set_self _ hne, ?_⟩
      rw [hposition, overwrite_length_self, List.length_append]
    · rw [hreceived, List.take_length]
  · let count := min bytes.length (room.getD bytes.length)
    have hset := fs.node?_set_self (.device (taken ++ bytes.take count) (room.map (· - count)))
      (ne_nil_of_device hnode)
    refine ⟨count, { h with position := h.position + count }, _, ?_, .inr ⟨_, _, hset⟩, rfl, ?_,
      ?_⟩
    · simp only [Files.write, hnode]
      rfl
    · simp only [received, hset, hnode]
    · by_cases hall : count = bytes.length
      · exact .inl hall
      · right
        cases room with
        | none => exact absurd (Nat.min_self _) hall
        | some r =>
          have hroom : r - count = 0 := by
            simp only [count, Option.getD_some] at hall ⊢
            omega
          rw [Option.map_some, hroom] at hset ⊢
          exact ⟨_, hset⟩

/-- A full device stays as it is. -/
theorem Full.write (hfull : fs.Full h.place) (bytes : Bytes) :
    (fs.write h bytes).2.2.received h.place = fs.received h.place := by
  obtain ⟨taken, hnode⟩ := hfull
  have hwrite : (fs.write h bytes).2.2 = fs.set h.place (.device taken (some 0)) := by
    simp [Files.write, hnode]
  rw [hwrite]
  simp only [received, fs.node?_set_self _ (ne_nil_of_device hnode), hnode]

theorem write_fst_le (fs : Files) (h : Handle) (bytes : Bytes) :
    (fs.write h bytes).1 ≤ bytes.length := by
  unfold write
  split
  · exact Nat.le_refl _
  · exact Nat.min_le_left _ _
  · exact Nat.zero_le _

/-! ### What a place holds in all -/

/-- How many bytes a place holds in all, if there is a limit: what it has taken, and its room. -/
def limit? (fs : Files) (place : Place) : Option Nat :=
  match fs.node? place with
  | some (.device taken (some room)) => some (taken.length + room)
  | _ => none

/-- As much of some bytes as a place holds. -/
def fit (fs : Files) (place : Place) (bytes : Bytes) : Bytes :=
  match fs.limit? place with
  | some limit => bytes.take limit
  | none => bytes

theorem limit?_set_of_ne {place other : Place} (node : Node) (hne : other ≠ place) :
    (fs.set place node).limit? other = fs.limit? other := by
  rw [limit?, fs.node?_set_of_ne _ hne, limit?]

theorem limit?_write (fs : Files) (h : Handle) (bytes : Bytes) (place : Place) :
    (fs.write h bytes).2.2.limit? place = fs.limit? place := by
  unfold write
  split
  · rename_i content hnode
    by_cases hplace : place = h.place
    · subst hplace
      simp only [limit?, hnode, fs.node?_set_self _ (ne_nil_of_node? hnode (by simp))]
    · exact limit?_set_of_ne _ hplace
  · rename_i taken room hnode
    by_cases hplace : place = h.place
    · subst hplace
      rw [limit?, fs.node?_set_self _ (ne_nil_of_device hnode), limit?, hnode]
      cases room with
      | none => rfl
      | some room =>
        simp only [Option.getD_some, Option.map_some, List.length_append, List.length_take,
          Option.some_inj]
        omega
    · exact limit?_set_of_ne _ hplace
  · rfl

/-- Opening an output changes neither its limit nor that of another place. -/
theorem limit?_create {path : String} {opened : Files}
    (hcreate : fs.create path = .ok (h, opened)) (place : Place) :
    opened.limit? place = fs.limit? place := by
  have hne := place_ne_nil_of_create hcreate
  obtain ⟨-, -, -, ⟨-, rfl⟩ | ⟨hdevice, rfl⟩⟩ := create_cases hcreate
  · rfl
  · by_cases hplace : place = h.place
    · have hnone : fs.limit? h.place = none := by
        unfold limit?
        split
        · exact absurd ‹_› (hdevice _ _)
        · rfl
      rw [hplace, hnone, limit?, fs.node?_set_self _ hne]
    · exact limit?_set_of_ne _ hplace

theorem fit_congr {fs' : Files} {place : Place} (hlimit : fs'.limit? place = fs.limit? place)
    (bytes : Bytes) : fs'.fit place bytes = fs.fit place bytes := by
  rw [fit, fit, hlimit]

theorem fit_isPrefix (fs : Files) (place : Place) (bytes : Bytes) :
    fs.fit place bytes <+: bytes := by
  unfold fit
  split
  · exact List.take_prefix _ _
  · exact List.prefix_rfl

/-- What a device takes after what it has taken: as much as there is room for. -/
theorem fit_kept_append {place : Place} {taken : Bytes} {room : Nat}
    (hdevice : fs.node? place = some (.device taken (some room))) (bytes : Bytes) :
    fs.fit place (fs.kept place ++ bytes) = taken ++ bytes.take room := by
  simp only [fit, limit?, kept, hdevice]
  rw [List.take_length_add_append]

/-- What creating an output keeps is within its limit. -/
theorem fit_kept (fs : Files) (place : Place) : fs.fit place (fs.kept place) = fs.kept place := by
  unfold fit
  split
  · rename_i limit hlimit
    apply List.take_of_length_le
    unfold limit? at hlimit
    split at hlimit
    · rename_i hnode
      cases hlimit
      simp [kept, hnode]
    · cases hlimit
  · rfl

/-- What a place has received is within its limit. -/
theorem fit_received (fs : Files) (place : Place) :
    fs.fit place (fs.received place) = fs.received place := by
  unfold fit
  split
  · rename_i limit hlimit
    apply List.take_of_length_le
    unfold limit? at hlimit
    split at hlimit
    · rename_i hnode
      cases hlimit
      simp [received, hnode]
    · cases hlimit
  · rfl

/-- A full place has received as much as it holds. -/
theorem fit_of_full {place : Place} {all : Bytes} (hfull : fs.Full place)
    (hfront : fs.received place <+: all) : fs.fit place all = fs.received place := by
  obtain ⟨taken, hnode⟩ := hfull
  obtain ⟨rest, rfl⟩ := hfront
  simp [fit, limit?, received, hnode]

end Files

namespace Document.Writer

variable {w : Writer} {fs : Files} {place : Place} {all : Bytes}

/-- Nothing that was written is lost: the output has received it, or it is in the buffer. -/
structure Carries (w : Writer) (fs : Files) (place : Place) (all : Bytes) : Prop where
  appends : fs.Appends w.handle
  place : w.handle.place = place
  total : w.total fs = all

/-- A new output has what opening it left there. -/
theorem carries_of_create {path : String} {handle : Handle} {opened : Files}
    (hcreate : fs.create path = .ok (handle, opened)) :
    Carries { handle } opened handle.place (fs.kept handle.place) where
  appends := Files.appends_of_create hcreate
  place := rfl
  total := by rw [Writer.total, List.append_nil, Files.received_of_create hcreate]

theorem Carries.isPrefix (h : Carries w fs place all) : fs.received place <+: all := by
  rw [← h.total, ← h.place]
  exact List.prefix_append _ _

/-- What writing comes to when it should have brought everything written to some bytes: it has,
or it failed because the output is full, which then has a front of them. -/
inductive Wrote (place : Place) (all : Bytes) : Bool × Writer × Files → Prop where
  | whole {w : Writer} {fs : Files} (h : Carries w fs place all) : Wrote place all (true, w, fs)
  | front {w : Writer} {fs : Files} (hplace : w.handle.place = place) (hfull : fs.Full place)
      (hfront : fs.received place <+: all) (hlost : (fs.received place).length < all.length) :
      Wrote place all (false, w, fs)

theorem Wrote.append {bytes : Bytes} (hplace : w.handle.place = place) {fs : Files}
    (h : Wrote place all (false, w, fs)) : Wrote place (all ++ bytes) (false, w, fs) := by
  cases h with
  | front _ hfull hfront hlost =>
    refine .front hplace hfull (hfront.trans (List.prefix_append _ _)) ?_
    rw [List.length_append]
    exact Nat.lt_add_right _ hlost

theorem wrote_flush (h : Carries w fs place all) :
    Wrote place all (w.flush fs) ∧ ((w.flush fs).1 = true → (w.flush fs).2.1.buffer = []) := by
  obtain ⟨count, h', fs', hwrite, happends, hplace, hreceived, hcount⟩ := h.appends.write w.buffer
  have hflush : w.flush fs =
      (decide (count = w.buffer.length), { handle := h', buffer := w.buffer.drop count }, fs') := by
    simp [flush, hwrite]
  have hreceived' : fs'.received place ++ w.buffer.drop count = all := by
    rw [← h.place, hreceived, List.append_assoc, List.take_append_drop, ← h.total, total]
  have hplace' : h'.place = place := hplace.trans h.place
  rw [hflush]
  by_cases hall : count = w.buffer.length
  · rw [decide_eq_true hall]
    refine ⟨.whole ⟨happends, hplace', ?_⟩, fun _ => ?_⟩
    · rw [total, hplace', hreceived']
    · exact List.drop_of_length_le (Nat.le_of_eq hall.symm)
  · rw [decide_eq_false hall]
    refine ⟨.front hplace' (h.place ▸ hcount.resolve_left hall) ?_ ?_,
      fun hfalse => absurd hfalse Bool.false_ne_true⟩
    · rw [← hreceived']
      exact List.prefix_append _ _
    · have hle := fs.write_fst_le w.handle w.buffer
      rw [hwrite] at hle
      rw [← hreceived', List.length_append, List.length_drop]
      omega

theorem wrote_take (h : Carries w fs place all) {piece : Bytes}
    (hroom : capacity ≤ piece.length → w.buffer = []) :
    Wrote place (all ++ piece) (w.take fs piece) := by
  unfold take
  by_cases hlong : capacity ≤ piece.length
  · rw [if_pos hlong]
    obtain ⟨count, h', fs', hwrite, happends, hplace, hreceived, hcount⟩ := h.appends.write piece
    have hall : fs.received place = all := by
      rw [← h.total, total, hroom hlong, List.append_nil, h.place]
    have hplace' : h'.place = place := hplace.trans h.place
    rw [h.place, hall] at hreceived
    rw [hwrite]
    simp only
    by_cases hwhole : count = piece.length
    · rw [decide_eq_true hwhole]
      refine .whole ⟨happends, hplace', ?_⟩
      simp only [total, hplace', hroom hlong, List.append_nil]
      rw [hreceived, hwhole, List.take_length]
    · rw [decide_eq_false hwhole]
      refine .front hplace' (h.place ▸ hcount.resolve_left hwhole) ?_ ?_
      · rw [hreceived]
        exact List.prefix_append_right_inj _ |>.mpr (List.take_prefix _ _)
      · have hle := fs.write_fst_le w.handle piece
        rw [hwrite] at hle
        rw [hreceived, List.length_append, List.length_append, List.length_take]
        omega
  · rw [if_neg hlong]
    refine .whole ⟨h.appends, h.place, ?_⟩
    rw [← h.total, total, total, List.append_assoc]

theorem wrote_write (h : Carries w fs place all) (piece : Bytes) :
    Wrote place (all ++ piece) (w.write fs piece) := by
  unfold write
  by_cases hfits : w.buffer.length + piece.length ≤ capacity
  · rw [if_pos hfits]
    apply wrote_take h
    intro hlong
    apply List.length_eq_zero_iff.mp
    omega
  · rw [if_neg hfits]
    obtain ⟨hflush, hbuffer⟩ := wrote_flush h
    generalize w.flush fs = r at hflush hbuffer
    cases hflush with
    | whole h => exact wrote_take h fun _ => hbuffer rfl
    | front hplace hfull hfront hlost => exact .append hplace (.front hplace hfull hfront hlost)

theorem wrote_writeAll (h : Carries w fs place all) (pieces : List Bytes) :
    Wrote place (all ++ pieces.flatten) (w.writeAll fs pieces) := by
  induction pieces generalizing w fs all with
  | nil =>
    rw [List.flatten_nil, List.append_nil]
    exact .whole h
  | cons piece rest ih =>
    have hwrite := wrote_write h piece
    rw [List.flatten_cons, ← List.append_assoc]
    unfold writeAll
    generalize w.write fs piece = r at hwrite
    cases hwrite with
    | whole h => exact ih h
    | front hplace hfull hfront hlost => exact .append hplace (.front hplace hfull hfront hlost)

theorem limit?_flush (w : Writer) (fs : Files) (place : Place) :
    (w.flush fs).2.2.limit? place = fs.limit? place :=
  fs.limit?_write _ _ _

theorem limit?_writeAll (w : Writer) (fs : Files) (pieces : List Bytes) (place : Place) :
    (w.writeAll fs pieces).2.2.limit? place = fs.limit? place :=
  writeAll_keeps (P := fun fs' => fs'.limit? place = fs.limit? place)
    (fun fs' h bytes => (fs'.limit?_write h bytes place).trans) rfl pieces

/-- As long as nothing is lost, an output whose buffer has been passed on has received all. -/
theorem Carries.received_eq (h : Carries w fs place all) (hbuffer : w.buffer = []) :
    fs.received place = all := by
  have htotal := h.total
  rw [Writer.total, h.place, hbuffer, List.append_nil] at htotal
  exact htotal

/-- Passing the buffer on gives the output as much as it holds, also after a failure. -/
theorem Wrote.received_flush_eq {r : Bool × Writer × Files} (h : Wrote place all r) :
    (r.2.1.flush r.2.2).2.2.received place = r.2.2.fit place all := by
  rw [← Files.fit_congr (limit?_flush r.2.1 r.2.2 place)]
  cases h with
  | whole h =>
    obtain ⟨hflush, hbuffer⟩ := wrote_flush h
    generalize flush _ _ = r at hflush hbuffer
    cases hflush with
    | whole h => rw [← h.received_eq (hbuffer rfl), Files.fit_received]
    | front _ hfull hfront => exact (Files.fit_of_full hfull hfront).symm
  | @front w fs hplace hfull hfront =>
    have hreceived : (w.flush fs).2.2.received place = fs.received place := by
      subst hplace
      exact hfull.write _
    rw [Files.fit_congr (limit?_flush w fs place), Files.fit_of_full hfull hfront]
    exact hreceived

/-- An output that does not take all has less than what was written. -/
theorem Wrote.length_fit_lt {w : Writer} {fs : Files} (h : Wrote place all (false, w, fs)) :
    (fs.fit place all).length < all.length := by
  cases h with
  | front _ hfull hfront hlost =>
    rw [Files.fit_of_full hfull hfront]
    exact hlost

end Document.Writer

end DecodingDesk

import DecodingDesk.Document.Writer
/-!
# An output that takes everything

What a file has received together with what is still in the buffer grows by exactly
the pieces that are written, wherever the buffer is passed on in between.
-/

namespace DecodingDesk

open Text (Bytes)

namespace Files

variable {fs : Files} {h : Handle}

/-- What a place holds, or has taken if it is a device. -/
def received (fs : Files) (place : Place) : Bytes :=
  match fs.node? place with
  | some (.file content) => content
  | some (.device taken _) => taken
  | _ => []

/-- What creating an output keeps of what was there: the bytes that a device has taken. -/
def kept (fs : Files) (place : Place) : Bytes :=
  match fs.node? place with
  | some (.device taken _) => taken
  | _ => []

/-- Whether everything that is written through a handle arrives behind what is there. -/
def Takes (fs : Files) (h : Handle) : Prop :=
  (∃ content, fs.node? h.place = some (.file content) ∧ h.position = content.length) ∨
    ∃ taken, fs.node? h.place = some (.device taken none)

theorem ne_nil_of_node? {place : Place} {node : Node} (h : fs.node? place = some node)
    (hnode : node ≠ .directory) : place ≠ [] := by
  rintro rfl
  exact hnode (Option.some.inj h).symm

theorem Takes.write (ht : fs.Takes h) (bytes : Bytes) : ∃ h' fs',
    fs.write h bytes = (bytes.length, h', fs') ∧ fs'.Takes h' ∧ h'.place = h.place ∧
      fs'.received h.place = fs.received h.place ++ bytes := by
  rcases ht with ⟨content, hnode, hposition⟩ | ⟨taken, hnode⟩
  · have hne := ne_nil_of_node? hnode (by simp)
    have hset := fs.node?_set_self (.file (content ++ bytes)) hne
    refine ⟨{ h with position := h.position + bytes.length },
      fs.set h.place (.file (content ++ bytes)), ?_, ?_, rfl, ?_⟩
    · simp only [Files.write, hnode, hposition, overwrite_length_self]
    · exact .inl ⟨_, hset, by simp [hposition]⟩
    · simp only [received, hset, hnode]
  · have hne := ne_nil_of_node? hnode (by simp)
    have hset := fs.node?_set_self (.device (taken ++ bytes) none) hne
    refine ⟨{ h with position := h.position + bytes.length },
      fs.set h.place (.device (taken ++ bytes) none), ?_, ?_, rfl, ?_⟩
    · simp [Files.write, hnode]
    · exact .inr ⟨_, hset⟩
    · simp only [received, hset, hnode]

theorem find_eq_ok {path : String} {place : Place} {node : Node} :
    fs.find path = .ok (place, node) ↔ checkPath path = .ok () ∧
      fs.walk (fs.start path).1 (fs.start path).2 = .ok place ∧ fs.node? place = some node := by
  unfold find
  rw [bind_eq_ok]
  constructor
  · rintro ⟨⟨⟩, hcheck, h⟩
    obtain ⟨found, hwalk, h⟩ := bind_eq_ok.mp h
    split at h
    · cases h
      exact ⟨hcheck, hwalk, ‹_›⟩
    · cases h
  · rintro ⟨hcheck, hwalk, hnode⟩
    refine ⟨(), hcheck, bind_eq_ok.mpr ⟨place, hwalk, ?_⟩⟩
    rw [hnode]

theorem node?_of_find {path : String} {place : Place} {node : Node}
    (h : fs.find path = .ok (place, node)) : fs.node? place = some node :=
  (find_eq_ok.mp h).2.2

/-- Creating a file leaves a device as it is, and makes an empty file of anything else that is
no directory. -/
theorem create_cases {path : String} {opened : Files}
    (hcreate : fs.create path = .ok (h, opened)) :
    fs.target path = .ok h.place ∧ h.position = 0 ∧ fs.node? h.place ≠ some .directory ∧
      ((∃ taken room, fs.node? h.place = some (.device taken room)) ∧ opened = fs ∨
        (∀ taken room, fs.node? h.place ≠ some (.device taken room)) ∧
          opened = fs.set h.place (.file [])) := by
  unfold create at hcreate
  obtain ⟨place, htarget, hcreate⟩ := bind_eq_ok.mp hcreate
  split at hcreate
  · cases hcreate
  · rename_i taken room hnode
    cases hcreate
    refine ⟨htarget, rfl, ?_, .inl ⟨⟨taken, room, hnode⟩, rfl⟩⟩
    rw [hnode]
    simp
  · rename_i hdirectory hdevice
    cases hcreate
    exact ⟨htarget, rfl, hdirectory, .inr ⟨hdevice, rfl⟩⟩

theorem place_ne_nil_of_create {path : String} {opened : Files}
    (hcreate : fs.create path = .ok (h, opened)) : h.place ≠ [] := by
  obtain ⟨-, -, hdirectory, -⟩ := create_cases hcreate
  intro hnil
  exact hdirectory (by rw [hnil]; rfl)

/-- Creating a file touches nothing but its place. -/
theorem create_spec {path : String} {opened : Files} (hcreate : fs.create path = .ok (h, opened)) :
    h.position = 0 ∧ (∀ place, place ≠ h.place → opened.node? place = fs.node? place) ∧
      (opened.node? h.place = some (.file []) ∨
        ∃ taken room, fs.node? h.place = some (.device taken room) ∧ opened = fs) := by
  have hne := place_ne_nil_of_create hcreate
  obtain ⟨-, hposition, -, ⟨⟨taken, room, hnode⟩, rfl⟩ | ⟨-, rfl⟩⟩ := create_cases hcreate
  · exact ⟨hposition, fun _ _ => rfl, .inr ⟨taken, room, hnode, rfl⟩⟩
  · exact ⟨hposition, fun _ hp => fs.node?_set_of_ne _ hp, .inl (fs.node?_set_self _ hne)⟩

theorem read_eq_ok {path : String} {content : Bytes} : fs.read path = .ok content ↔
    ∃ source, fs.openSource path = .ok source ∧ fs.contentAt source = .ok content :=
  bind_eq_ok

/-- An output is empty when it has been created. -/
theorem contentAt_created {path : String} {opened : Files}
    (hcreate : fs.create path = .ok (h, opened)) : opened.contentAt h.place = .ok [] := by
  obtain ⟨-, -, hnode | ⟨taken, room, hnode, rfl⟩⟩ := create_spec hcreate
  · rw [contentAt, hnode]
  · rw [contentAt, hnode]

/-- A file that can be read can still be read when an output has been created; if it is that
output it is empty. -/
theorem contentAt_of_create {path : String} {opened : Files} {source : Place} {content : Bytes}
    (hcreate : fs.create path = .ok (h, opened)) (hcontent : fs.contentAt source = .ok content) :
    opened.contentAt source = .ok content ∨ opened.contentAt source = .ok [] := by
  by_cases hsource : source = h.place
  · right
    rw [hsource]
    exact contentAt_created hcreate
  · left
    rw [contentAt, (create_spec hcreate).2.1 _ hsource]
    exact hcontent

theorem takes_of_create {path : String} {opened : Files}
    (hcreate : fs.create path = .ok (h, opened))
    (hroom : ∀ taken room, fs.node? h.place = some (.device taken room) → room = none) :
    opened.Takes h := by
  obtain ⟨hposition, -, hnode | ⟨taken, room, hnode, rfl⟩⟩ := create_spec hcreate
  · exact .inl ⟨[], hnode, hposition⟩
  · obtain rfl := hroom taken room hnode
    exact .inr ⟨taken, hnode⟩

theorem received_of_create {path : String} {opened : Files}
    (hcreate : fs.create path = .ok (h, opened)) :
    opened.received h.place = fs.kept h.place := by
  have hne := place_ne_nil_of_create hcreate
  obtain ⟨-, -, -, ⟨⟨taken, room, hnode⟩, rfl⟩ | ⟨hdevice, rfl⟩⟩ := create_cases hcreate
  · simp only [received, kept, hnode]
  · have hkept : fs.kept h.place = [] := by
      unfold kept
      split
      · exact absurd ‹_› (hdevice _ _)
      · rfl
    rw [hkept, received, fs.node?_set_self _ hne]

end Files

namespace Document.Writer

variable {w : Writer} {fs : Files}

/-! ### What every write keeps -/

section Keeps

variable {P : Files → Prop} (hP : ∀ fs h bytes, P fs → P (fs.write h bytes).2.2)
include hP

theorem flush_keeps (h : P fs) : P (w.flush fs).2.2 :=
  hP fs w.handle w.buffer h

theorem take_keeps (h : P fs) (piece : Bytes) : P (w.take fs piece).2.2 := by
  unfold take
  split
  · exact hP _ _ _ h
  · exact h

theorem write_keeps (h : P fs) (piece : Bytes) : P (w.write fs piece).2.2 := by
  have hflush : P (w.flush fs).2.2 := flush_keeps hP h
  unfold write
  split
  · exact take_keeps hP h piece
  · split
    · rename_i w' fs' heq
      rw [heq] at hflush
      exact take_keeps hP hflush piece
    · exact hflush

theorem writeAll_keeps (h : P fs) (pieces : List Bytes) : P (w.writeAll fs pieces).2.2 := by
  induction pieces generalizing w fs with
  | nil => exact h
  | cons piece rest ih =>
    have hwrite : P (w.write fs piece).2.2 := write_keeps hP h piece
    unfold writeAll
    split
    · rename_i w' fs' heq
      rw [heq] at hwrite
      exact ih hwrite
    · exact hwrite

end Keeps

/-! ### What is added -/

/-- What the file holds once the buffer has been passed on. -/
def total (w : Writer) (fs : Files) : Bytes :=
  fs.received w.handle.place ++ w.buffer

/-- What writing with some outcome has done, if it has added some bytes to the total. -/
structure Added (w : Writer) (fs : Files) (bytes : Bytes) (r : Bool × Writer × Files) : Prop where
  all : r.1 = true
  takes : r.2.2.Takes r.2.1.handle
  place : r.2.1.handle.place = w.handle.place
  total : r.2.1.total r.2.2 = w.total fs ++ bytes

theorem added_flush (ht : fs.Takes w.handle) :
    Added w fs [] (w.flush fs) ∧ (w.flush fs).2.1.buffer = [] := by
  obtain ⟨h', fs', hwrite, htakes, hplace, hreceived⟩ := ht.write w.buffer
  have hflush : w.flush fs = (true, { handle := h', buffer := [] }, fs') := by
    simp [flush, hwrite]
  rw [hflush]
  refine ⟨⟨rfl, htakes, hplace, ?_⟩, rfl⟩
  simp only [total, hplace, hreceived, List.append_nil]

theorem added_take (ht : fs.Takes w.handle) {piece : Bytes}
    (hroom : capacity ≤ piece.length → w.buffer = []) :
    Added w fs piece (w.take fs piece) := by
  unfold take
  by_cases hlong : capacity ≤ piece.length
  · rw [if_pos hlong]
    obtain ⟨h', fs', hwrite, htakes, hplace, hreceived⟩ := ht.write piece
    rw [hwrite]
    refine ⟨by simp, htakes, hplace, ?_⟩
    simp only [total, hplace, hreceived, hroom hlong, List.append_nil]
  · rw [if_neg hlong]
    exact ⟨rfl, ht, rfl, by simp [total]⟩

theorem Added.trans {w : Writer} {fs : Files} {first second : Bytes} {r r' : Bool × Writer × Files}
    (h : Added w fs first r) (h' : Added r.2.1 r.2.2 second r') :
    Added w fs (first ++ second) r' where
  all := h'.all
  takes := h'.takes
  place := h'.place.trans h.place
  total := by rw [h'.total, h.total, List.append_assoc]

theorem added_write (ht : fs.Takes w.handle) (piece : Bytes) :
    Added w fs piece (w.write fs piece) := by
  unfold write
  by_cases hfits : w.buffer.length + piece.length ≤ capacity
  · rw [if_pos hfits]
    apply added_take ht
    intro hlong
    apply List.length_eq_zero_iff.mp
    omega
  · rw [if_neg hfits]
    obtain ⟨hflush, hbuffer⟩ := added_flush ht
    have hall := hflush.all
    split
    · rename_i w' fs' heq
      rw [heq] at hflush hbuffer
      exact hflush.trans (added_take hflush.takes fun _ => hbuffer)
    · rename_i r hr
      exact (hr _ _ (Prod.ext hall rfl)).elim

theorem added_writeAll (ht : fs.Takes w.handle) (pieces : List Bytes) :
    Added w fs pieces.flatten (w.writeAll fs pieces) := by
  induction pieces generalizing w fs with
  | nil => exact ⟨rfl, ht, rfl, by simp [writeAll]⟩
  | cons piece rest ih =>
    have hwrite := added_write ht piece
    have hall := hwrite.all
    unfold writeAll
    split
    · rename_i w' fs' heq
      rw [heq] at hwrite
      exact hwrite.trans (ih hwrite.takes)
    · rename_i r hr
      exact (hr _ _ (Prod.ext hall rfl)).elim

/-- Passing the buffer on gives the file the whole total. -/
theorem received_flush (ht : fs.Takes w.handle) :
    (w.flush fs).2.2.received w.handle.place = w.total fs := by
  obtain ⟨hflush, hbuffer⟩ := added_flush ht
  have htotal := hflush.total
  rw [total, hflush.place, hbuffer, List.append_nil, List.append_nil] at htotal
  exact htotal

end Document.Writer

end DecodingDesk

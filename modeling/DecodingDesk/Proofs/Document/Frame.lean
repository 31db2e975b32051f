import DecodingDesk.Proofs.Document.Output
import DecodingDesk.Proofs.Document.Step
/-!
# What a document task touches

A task touches one place, which is that of the output that it has created, and leaves every
directory a directory.  So a path that leads elsewhere finds what it found before, and the path of
an output that is a file finds it there.
-/

namespace DecodingDesk

open Text (Bytes)

namespace Files

variable {fs fs' fs'' : Files} {h : Handle} {place source : Place} {node : Node} {path : String}

/-- Whether two file systems agree everywhere but at one place, and in their directories. -/
structure Touches (place : Place) (fs fs' : Files) : Prop where
  current : fs'.current = fs.current
  directory : ∀ p, fs'.node? p = some .directory ↔ fs.node? p = some .directory
  other : ∀ p, p ≠ place → fs'.node? p = fs.node? p

theorem Touches.refl (place : Place) (fs : Files) : Touches place fs fs :=
  ⟨rfl, fun _ => Iff.rfl, fun _ _ => rfl⟩

theorem Touches.of_eq (h : fs' = fs) : Touches place fs fs' :=
  h ▸ .refl _ _

theorem Touches.symm (h : Touches place fs fs') : Touches place fs' fs :=
  ⟨h.current.symm, fun p => (h.directory p).symm, fun p hp => (h.other p hp).symm⟩

theorem Touches.trans (h : Touches place fs fs') (h' : Touches place fs' fs'') :
    Touches place fs fs'' :=
  ⟨h'.current.trans h.current, fun p => (h'.directory p).trans (h.directory p),
    fun p hp => (h'.other p hp).trans (h.other p hp)⟩

theorem touches_set (hfree : fs.node? place ≠ some .directory) (hnode : node ≠ .directory) :
    Touches place fs (fs.set place node) where
  current := rfl
  directory p := by
    by_cases hp : p = place
    · have hne : place ≠ [] := by
        rintro rfl
        exact hfree rfl
      rw [hp, fs.node?_set_self node hne]
      exact ⟨fun hd => absurd (Option.some.inj hd) hnode, fun hd => absurd hd hfree⟩
    · rw [fs.node?_set_of_ne node hp]
  other _ hp := fs.node?_set_of_ne node hp

theorem touches_create {opened : Files} (hcreate : fs.create path = .ok (h, opened)) :
    Touches h.place fs opened := by
  obtain ⟨-, -, hfree, ⟨-, rfl⟩ | ⟨-, rfl⟩⟩ := create_cases hcreate
  · exact .refl _ _
  · exact touches_set hfree nofun

theorem touches_write (fs : Files) (h : Handle) (bytes : Bytes) :
    Touches h.place fs (fs.write h bytes).2.2 := by
  unfold write
  split
  · rename_i hnode
    exact touches_set (by rw [hnode]; nofun) nofun
  · rename_i hnode
    exact touches_set (by rw [hnode]; nofun) nofun
  · exact .refl _ _

theorem write_place (fs : Files) (h : Handle) (bytes : Bytes) :
    (fs.write h bytes).2.1.place = h.place := by
  unfold write
  split <;> rfl

/-- Names lead where they led, since they go through directories. -/
theorem Touches.walk (h : Touches place fs fs') {names : List String} {from_ found : Place}
    (hwalk : fs.walk from_ names = .ok found) : fs'.walk from_ names = .ok found := by
  induction names generalizing from_ with
  | nil => exact hwalk
  | cons name rest ih =>
    -- only whether there is a directory matters on the way, not what a file holds
    unfold Files.walk at hwalk
    split at hwalk
    · cases hwalk
    · rename_i hdirectory
      have hdirectory' := (h.directory from_).mpr hdirectory
      unfold Files.walk
      rw [hdirectory']
      simp only
      split at hwalk
      · rw [if_pos ‹_›]
        exact ih hwalk
      · rw [if_neg ‹_›]
        split at hwalk
        · rw [if_pos ‹_›]
          exact ih hwalk
        · rw [if_neg ‹_›]
          split at hwalk
          · cases hwalk
          · rw [if_neg ‹_›]
            exact ih hwalk
    · cases hwalk

theorem Touches.start (h : Touches place fs fs') (path : String) :
    fs'.start path = fs.start path := by
  rw [Files.start, Files.start, h.current]

/-- A path that leads elsewhere finds what it found before. -/
theorem Touches.find (h : Touches place fs fs') (hfind : fs.find path = .ok (source, node))
    (hne : source ≠ place) : fs'.find path = .ok (source, node) := by
  obtain ⟨hcheck, hwalk, hnode⟩ := find_eq_ok.mp hfind
  refine find_eq_ok.mpr ⟨hcheck, ?_, ?_⟩
  · rw [h.start]
    exact h.walk hwalk
  · rw [h.other _ hne, hnode]

/-- An output path leads where it led before. -/
theorem Touches.target (h : Touches place fs fs') (htarget : fs.target path = .ok source) :
    fs'.target path = .ok source := by
  unfold Files.target at htarget ⊢
  obtain ⟨⟨⟩, hcheck, htarget⟩ := bind_eq_ok.mp htarget
  refine bind_eq_ok.mpr ⟨(), hcheck, ?_⟩
  rw [h.start]
  simp only at htarget ⊢
  split at htarget
  · obtain ⟨-, -, hnone⟩ := bind_eq_ok.mp htarget
    cases hnone
  · rw [if_neg ‹_›]
    exact h.walk htarget

/-- The path of an output finds what is at its place. -/
theorem Touches.find_created {opened : Files} (hcreate : fs.create path = .ok (h, opened))
    (htouches : Touches h.place fs fs') (hnode : fs'.node? h.place = some node) :
    fs'.find path = .ok (h.place, node) := by
  obtain ⟨htarget, -⟩ := create_cases hcreate
  unfold Files.target at htarget
  obtain ⟨⟨⟩, hcheck, htarget⟩ := bind_eq_ok.mp htarget
  simp only at htarget
  split at htarget
  · obtain ⟨-, -, hnone⟩ := bind_eq_ok.mp htarget
    cases hnone
  · refine find_eq_ok.mpr ⟨hcheck, ?_, hnode⟩
    rw [htouches.start]
    exact htouches.walk htarget

/-! ### Places that hold a file -/

def IsFile (fs : Files) (place : Place) : Prop :=
  ∃ content, fs.node? place = some (.file content)

theorem IsFile.set (hfile : fs.IsFile place) (other : Place) (hother : other ≠ [])
    (hnode : other = place → ∃ content, node = .file content) : (fs.set other node).IsFile place := by
  by_cases hp : place = other
  · subst hp
    obtain ⟨content, rfl⟩ := hnode rfl
    exact ⟨content, fs.node?_set_self _ hother⟩
  · obtain ⟨content, hcontent⟩ := hfile
    exact ⟨content, (fs.node?_set_of_ne node hp).trans hcontent⟩

theorem IsFile.write (hfile : fs.IsFile place) (h : Handle) (bytes : Bytes) :
    (fs.write h bytes).2.2.IsFile place := by
  unfold Files.write
  split
  · rename_i content hnode
    exact hfile.set _ (ne_nil_of_node? hnode nofun) fun _ => ⟨_, rfl⟩
  · rename_i taken room hnode
    refine hfile.set _ (ne_nil_of_node? hnode nofun) fun heq => ?_
    obtain ⟨content, hcontent⟩ := hfile
    rw [← heq, hnode] at hcontent
    cases hcontent
  · exact hfile

theorem IsFile.create {opened : Files} (hfile : fs.IsFile place)
    (hcreate : fs.create path = .ok (h, opened)) : opened.IsFile place := by
  obtain ⟨-, -, -, ⟨-, rfl⟩ | ⟨-, rfl⟩⟩ := create_cases hcreate
  · exact hfile
  · exact hfile.set _ (place_ne_nil_of_create hcreate) fun _ => ⟨_, rfl⟩

theorem IsFile.node?_eq (hfile : fs.IsFile place) :
    fs.node? place = some (.file (fs.received place)) := by
  obtain ⟨content, hcontent⟩ := hfile
  rw [received, hcontent]

end Files

namespace Document

variable {t t' : Task} {p p' : Pool} {fs fs' : Files}

/-! ## Writing -/

namespace Writer

/-- Whether writing with some outcome has touched only the place that is written to, and goes
on there. -/
structure Confined (place : Place) (fs : Files) (r : Bool × Writer × Files) : Prop where
  touches : Files.Touches place fs r.2.2
  place : r.2.1.handle.place = place

theorem confined_flush (w : Writer) (fs : Files) : Confined w.handle.place fs (w.flush fs) :=
  ⟨fs.touches_write _ _, fs.write_place _ _⟩

theorem confined_take (w : Writer) (fs : Files) (piece : Bytes) :
    Confined w.handle.place fs (w.take fs piece) := by
  unfold take
  split
  · exact ⟨fs.touches_write _ _, fs.write_place _ _⟩
  · exact ⟨.refl _ _, rfl⟩

theorem Confined.then {place : Place} {b : Bool} {w : Writer} {fs fs' : Files}
    {r : Bool × Writer × Files} (h : Confined place fs (b, w, fs'))
    (h' : Confined w.handle.place fs' r) : Confined place fs r := by
  obtain ⟨htouches, hplace⟩ := h
  obtain rfl : w.handle.place = place := hplace
  exact ⟨htouches.trans h'.touches, h'.place⟩

theorem confined_write (w : Writer) (fs : Files) (piece : Bytes) :
    Confined w.handle.place fs (w.write fs piece) := by
  have hflush := confined_flush w fs
  unfold write
  split
  · exact confined_take _ _ _
  · split
    · rename_i w' fs' heq
      rw [heq] at hflush
      exact hflush.then (confined_take _ _ _)
    · exact hflush

theorem confined_writeAll (w : Writer) (fs : Files) (pieces : List Bytes) :
    Confined w.handle.place fs (w.writeAll fs pieces) := by
  induction pieces generalizing w fs with
  | nil => exact ⟨.refl _ _, rfl⟩
  | cons piece rest ih =>
    have hwrite := confined_write w fs piece
    unfold writeAll
    split
    · rename_i w' fs' heq
      rw [heq] at hwrite
      exact hwrite.then (ih _ _)
    · exact hwrite

end Writer

/-! ## The steps of a task -/

/-- Where a task writes, once it has created its output. -/
def Stage.place? : Stage → Option Place
  | .loading _ w | .reading _ w | .draining w => some w.handle.place
  | _ => none

/-- Whether a task has still to create its output. -/
def Stage.IsEarly : Stage → Prop
  | .opening | .creating _ => True
  | _ => False

/-- What a step of a task does to the files. -/
inductive Task.Alters (t t' : Task) (fs fs' : Files) : Prop where
  | nothing (hfiles : fs' = fs) (hearly : t.stage.IsEarly)
      (hnext : t'.stage.IsEarly ∨ ∃ r, t'.stage = .ended r)
  | create {handle : Handle} (hearly : t.stage.IsEarly)
      (hcreate : fs.create t.request.output = .ok (handle, fs'))
      (hplace : t'.stage.place? = some handle.place)
  | output {place : Place} (hplace : t.stage.place? = some place)
      (htouches : Files.Touches place fs fs')
      (hnext : t'.stage.place? = some place ∨ ∃ r, t'.stage = .ended r)

theorem Stage.IsEarly.place?_eq_none {stage : Stage} (h : stage.IsEarly) :
    stage.place? = none := by
  cases stage with
  | opening | creating => rfl
  | _ => cases h

theorem Task.Waits.place? {w : Writer} {next : Writer → Stage} (h : t.Waits p w next) :
    t.stage.place? = some w.handle.place ∧ ∀ w', (next w').place? = some w'.handle.place := by
  cases h with
  | full hstage | draining hstage =>
    rw [hstage]
    exact ⟨rfl, fun _ => rfl⟩

theorem Task.Step.alters (h : t.Step p fs t' p' fs') : t.Alters t' fs fs' := by
  cases h with
  | refuse hstage | noSource hstage | noOutput hstage =>
    exact .nothing rfl (by rw [hstage]; trivial) (.inr ⟨_, rfl⟩)
  | openSource hstage => exact .nothing rfl (by rw [hstage]; trivial) (.inl trivial)
  | create hstage hcreate => exact .create (by rw [hstage]; trivial) hcreate rfl
  | overflow hstage => exact .output (by rw [hstage]; rfl) (.refl _ _) (.inr ⟨_, rfl⟩)
  | unreadable hstage | invalid hstage =>
    exact .output (by rw [hstage]; rfl) (Writer.confined_flush _ _).touches (.inr ⟨_, rfl⟩)
  | load hstage | read hstage | endOfLines hstage =>
    exact .output (by rw [hstage]; rfl) (.refl _ _) (.inl rfl)
  | fill hstage | postLast hstage =>
    exact .output (by rw [hstage]; rfl) (.refl _ _) (.inl (by rw [post_eq]; rfl))
  | failed hwaits =>
    exact .output hwaits.place?.1 (Writer.confined_flush _ _).touches (.inr ⟨_, rfl⟩)
  | @wrote w w' _ _ _ os _ hwaits _ _ hwrite =>
    have hconfined := Writer.confined_writeAll w fs (chunkPieces t.request.withScores os)
    rw [hwrite] at hconfined
    refine .output hwaits.place?.1 hconfined.touches (.inl ?_)
    rw [← hconfined.place]
    exact hwaits.place?.2 w'
  | @jammed w w' _ _ _ os _ hwaits _ _ hwrite =>
    have hconfined := Writer.confined_writeAll w fs (chunkPieces t.request.withScores os)
    rw [hwrite] at hconfined
    exact .output hwaits.place?.1 (hconfined.then (Writer.confined_flush _ _)).touches
      (.inr ⟨_, rfl⟩)
  | @done w w' _ hstage _ hflush =>
    have hconfined := Writer.confined_flush w fs
    rw [hflush] at hconfined
    exact .output (by rw [hstage]; rfl) hconfined.touches (.inr ⟨_, rfl⟩)
  | @unflushed w w' _ hstage _ hflush =>
    have hconfined := Writer.confined_flush w fs
    rw [hflush] at hconfined
    exact .output (by rw [hstage]; rfl) (hconfined.then (Writer.confined_flush _ _)).touches
      (.inr ⟨_, rfl⟩)

/-- What a task that has still to create its output does: it goes on or gives up, or it creates
the output. -/
theorem Task.Step.early_cases (h : t.Step p fs t' p' fs') (hearly : t.stage.IsEarly) :
    (fs' = fs ∧ (t'.stage.IsEarly ∨ ∃ f, t'.stage = .ended (.error f))) ∨
      ∃ handle, fs.create t.request.output = .ok (handle, fs') ∧
        t'.stage.place? = some handle.place := by
  have hwaits : ∀ {w next}, ¬ t.Waits p w next := by
    intro w next hwaits
    have hplace := hwaits.place?.1
    rw [hearly.place?_eq_none] at hplace
    cases hplace
  cases h with
  | refuse | noSource | noOutput => exact .inl ⟨rfl, .inr ⟨_, rfl⟩⟩
  | openSource => exact .inl ⟨rfl, .inl trivial⟩
  | create hstage hcreate => exact .inr ⟨_, hcreate, rfl⟩
  | overflow hstage | unreadable hstage | load hstage | invalid hstage | read hstage | fill hstage
  | endOfLines hstage | postLast hstage | done hstage | unflushed hstage =>
    rw [hstage] at hearly
    cases hearly
  | failed h | wrote h | jammed h => exact absurd h hwaits

/-- A place that holds a file goes on doing so. -/
theorem Task.Step.isFile {place : Place} (h : t.Step p fs t' p' fs') (hfile : fs.IsFile place) :
    fs'.IsFile place := by
  have hkeeps : ∀ fs h bytes, Files.IsFile fs place → (fs.write h bytes).2.2.IsFile place :=
    fun _ h bytes hfile => hfile.write h bytes
  cases h with
  | refuse | noSource | openSource | noOutput | overflow | load | read | fill | endOfLines
  | postLast => exact hfile
  | create hstage hcreate => exact hfile.create hcreate
  | unreadable | invalid | failed => exact Writer.flush_keeps hkeeps hfile
  | @wrote w w' _ _ _ os _ _ _ _ hwrite =>
    have hall := Writer.writeAll_keeps (w := w) hkeeps hfile
      (chunkPieces t.request.withScores os)
    rwa [hwrite] at hall
  | @jammed w w' _ _ _ os _ _ _ _ hwrite =>
    have hall := Writer.writeAll_keeps (w := w) hkeeps hfile
      (chunkPieces t.request.withScores os)
    rw [hwrite] at hall
    exact Writer.flush_keeps hkeeps hall
  | @done w w' _ _ _ hflush =>
    have hall := Writer.flush_keeps (w := w) hkeeps hfile
    rwa [hflush] at hall
  | @unflushed w w' _ _ _ hflush =>
    have hall := Writer.flush_keeps (w := w) hkeeps hfile
    rw [hflush] at hall
    exact Writer.flush_keeps hkeeps hall

/-! ## The place of the output -/

/-- Where a task stands to its output, if creating it makes a file. -/
inductive Located (request : Request) (files : Files) (place : Place) (t : Task) (fs : Files) :
    Prop where
  | early (hrequest : t.request = request) (hearly : t.stage.IsEarly) (hfiles : fs = files)
  | refused {f : Failure} (hstage : t.stage = .ended (.error f))
  | created (hstage : t.stage.place? = some place ∨ ∃ r, t.stage = .ended r)
      (htouches : Files.Touches place files fs) (hfile : fs.IsFile place)

section Located

variable {request : Request} {files opened : Files} {handle : Handle}

theorem Task.Step.not_ended (h : t.Step p fs t' p' fs') (r : Except Failure Nat) :
    t.stage ≠ .ended r := by
  intro hended
  have hwaits : ∀ {w next}, ¬ t.Waits p w next := by
    rintro w next (hstage | hstage) <;>
    · rw [hended] at hstage
      cases hstage
  cases h with
  | failed h | wrote h | jammed h => exact hwaits h
  | refuse hstage | noSource hstage | openSource hstage | noOutput hstage | create hstage
  | overflow hstage | unreadable hstage | load hstage | invalid hstage | read hstage | fill hstage
  | endOfLines hstage | postLast hstage | done hstage | unflushed hstage =>
    rw [hended] at hstage
    cases hstage

theorem Located.step (hcreate : files.create request.output = .ok (handle, opened))
    (hfile : opened.IsFile handle.place) (h : Located request files handle.place t fs)
    (hstep : t.Step p fs t' p' fs') : Located request files handle.place t' fs' := by
  cases h with
  | early hrequest hearly hfiles =>
    subst hfiles
    rcases hstep.early_cases hearly with ⟨rfl, hnext | ⟨f, hstage⟩⟩ | ⟨handle', hcreate', hplace⟩
    · exact .early (hstep.request_eq.trans hrequest) hnext rfl
    · exact .refused hstage
    · rw [hrequest, hcreate] at hcreate'
      cases hcreate'
      exact .created (.inl hplace) (Files.touches_create hcreate) hfile
  | refused hstage => exact absurd hstage (hstep.not_ended _)
  | created hstage htouches hfile' =>
    have hplace := hstage.resolve_right fun ⟨r, hended⟩ => hstep.not_ended r hended
    cases hstep.alters with
    | nothing _ hearly | create hearly =>
      rw [hearly.place?_eq_none] at hplace
      cases hplace
    | output hplace' htouches' hnext =>
      obtain rfl := Option.some.inj (hplace'.symm.trans hplace)
      exact .created hnext (htouches.trans htouches') (hstep.isFile hfile')

theorem Site.Reachable.located {model : Model} {pool : Pool} {s : Site}
    (hcreate : files.create request.output = .ok (handle, opened))
    (hfile : opened.IsFile handle.place)
    (h : Site.Reachable model { task := { request }, pool, files } s) :
    Located request files handle.place s.task s.files := by
  induction h with
  | start => exact .early rfl trivial rfl
  | step m _ _ hstep ih =>
    cases m with
    | task =>
      obtain ⟨⟨t', p', fs'⟩, htask, rfl⟩ := Option.map_eq_some_iff.mp hstep
      exact ih.step hcreate hfile (Task.step_of_step? htask)
    | pool a =>
      obtain ⟨p', -, rfl⟩ := Option.map_eq_some_iff.mp hstep
      exact ih

/-- When a document has succeeded, the path of its output finds what that has received. -/
theorem Located.find_output {n : Nat}
    (hcreate : files.create request.output = .ok (handle, opened))
    (h : Located request files handle.place t fs) (hresult : t.result? = some (.ok n)) :
    fs.find request.output = .ok (handle.place, .file (fs.received handle.place)) := by
  unfold Task.result? at hresult
  split at hresult
  · rename_i hended
    cases hresult
    cases h with
    | early _ hearly =>
      rw [hended] at hearly
      cases hearly
    | refused hstage =>
      rw [hended] at hstage
      cases hstage
    | created _ htouches hfile => exact htouches.find_created hcreate hfile.node?_eq
  · cases hresult

end Located

end Document

end DecodingDesk

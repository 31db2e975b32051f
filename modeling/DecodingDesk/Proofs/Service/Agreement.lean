import DecodingDesk.Proofs.Service.Assembly
import DecodingDesk.Proofs.Service.Progress
/-!
# Documents and batches agree

A call for a document comes to what the calls for the batches of its chunks come to, whatever
else happens in the service.  Around a model that answers each item by itself that is what one
call for all of its lines comes to, however many lines a chunk has and however many workers
there are.
-/

namespace DecodingDesk.Service

open Document (Scene chunks)
open Text (Bytes)

variable {c : Scene} {s : Service} {i : Nat} {loader : Model.Loader} {settings : Settings}

/-- A call for the document of a scene that has returned has done what one go does. -/
theorem Reachable.returned_eq_sequential (h : Reachable loader c.files settings Follows s)
    (hmodel : s.model = c.model) (hsize : settings.poolSize.toNat = c.size)
    (hscores : c.request.withScores = c.request.options.params.withScores) (hsole : Sole c i s)
    {reply : CallReply} (hreturned : s.stage? i = some (.returned reply)) :
    reply = taskReply
        ((Document.sequential c.model c.request c.size c.content).1.mapError .error) ∧
      s.files.received c.handle.place = c.files.kept c.handle.place ++
        (Document.sequential c.model c.request c.size c.content).2 := by
  have hdispatched := h.dispatched hmodel hsize hscores hsole
  rw [hreturned] at hdispatched
  generalize s.tasks = tasks at hdispatched
  cases hdispatched with
  | returned hattains =>
    obtain ⟨hresult, hreceived⟩ := hattains.result_eq rfl
    rw [hresult, hreceived, ← Files.received_of_create c.create]
    exact ⟨rfl, rfl⟩

/-- A document whose lines are all texts comes to what the calls for its chunks come to. -/
theorem assembled_sequential {model : Model} {request : Document.Request} {size : Nat}
    {content : Bytes} {items : Batch} (hitems : Document.items? content = some items)
    (hscores : request.withScores = request.options.params.withScores) :
    Assembled model request.options.params (chunks request.batchSize items)
      (taskReply ((Document.sequential model request size content).1.mapError .error))
      (Document.sequential model request size content).2 := by
  have hawaited : Document.awaited request size content = chunks request.batchSize items := by
    rw [Document.awaited, hitems]
  have hassembled : Assembled model request.options.params (chunks request.batchSize items) _ _ :=
    assembled_inTurn (Options.validate_params request.options)
      fun _ hchunk => Document.ne_nil_of_mem_chunks hchunk
  rw [← hscores, ← hawaited] at hassembled
  rw [← hawaited, Document.sequential, hitems]
  cases hturn : Document.inTurn model request.options request.withScores
      (Document.awaited request size content) with
  | mk result written =>
    rw [hturn] at hassembled
    cases result <;> exact hassembled

/-- Around a model that answers each item by itself, a call for all lines comes to the same. -/
theorem Assembled.eq_of_isItemwise {model : Model} {params : DecodingParams} {options : Options}
    {m : Nat} {items : Batch} {reply : CallReply} {written : Bytes}
    (h : Assembled model params (chunks m items) reply written) (hm : m ≠ 0)
    (hvalid : Options.validate params = .ok options) (hitemwise : model.IsItemwise options)
    (hall : ∀ item ∈ items, ∃ b, alone model (some [item]) params = .ok (.results b)) :
    ∃ b, alone model (some items) params = .ok (.results b) ∧
      reply = .ok (.lines b.results.length) ∧ written = b.text params.withScores := by
  obtain ⟨rs, hrs⟩ := exists_yields hvalid hall
  obtain ⟨bs, hbs, hconcat⟩ := exists_concat hitemwise hvalid
    (fun chunk (hchunk : chunk ∈ chunks m items) => Document.ne_nil_of_mem_chunks hchunk)
    (by rw [Document.flatten_chunks hm]; exact hrs)
  obtain ⟨hreply, hwritten⟩ := h.eq_of_all hbs
  rw [hconcat] at hreply hwritten
  refine ⟨⟨rs⟩, ?_, hreply, hwritten⟩
  cases items with
  | nil =>
    cases hrs
    rw [alone, hvalid]
    rfl
  | cons item items => exact alone_of_yields hitemwise hvalid (List.cons_ne_nil _ _) hrs

variable {files opened : Files} {input output : String} {m : Nat} {params : DecodingParams}
  {options : Options} {source : Place} {content : Bytes} {handle : DecodingDesk.Handle}
  {items : Batch} {stage : CallStage}

/-- For a file that is a text, a different output that takes everything, and a model that kills
no worker, with `alone` what every call for a batch returns that does: a call for a document
returns what the calls for its chunks come to, and its output has received the text of their
results; if the model answers each item by itself and none fails, that is what one call for all
lines comes to.  In a fair run it does return, if it is not given up. -/
theorem Reachable.document_agrees (h : Reachable loader files settings Follows s)
    (hvalid : Options.validate params = .ok options) (hm : m ≠ 0) (hfits : fitsMemory m = true)
    (hfind : files.find input = .ok (source, .file content))
    (hitems : Document.items? content = some items)
    (hcreate : files.create output = .ok (handle, opened)) (hdistinct : source ≠ handle.place)
    (hroom : ∀ taken room, files.node? handle.place = some (.device taken room) → room = none)
    (hlethal : ∀ batch options, s.model batch options ≠ .panicked .lethal)
    (hcall : s.calls[i]? = some { spec := .document input output m params, stage })
    (honly : s.OnlyDocument i) :
    (∀ (loader' : Model.Loader) (files' : Files) (settings' : Settings) (t : Service) (k : Nat)
      (tokens : Option Batch) (reply : CallReply), Reachable loader' files' settings' Follows t →
        t.model = s.model →
        t.calls[k]? = some { spec := .batch tokens params, stage := .returned reply } →
          reply = alone s.model tokens params) ∧
    (∀ reply, stage = .returned reply → ∃ written,
      s.files.received handle.place = files.kept handle.place ++ written ∧
      Assembled s.model params (chunks m items) reply written ∧
      ((∃ n, reply = .ok (.lines n)) ↔
        ∀ c ∈ chunks m items, ∃ b, alone s.model (some c) params = .ok (.results b)) ∧
      (s.model.IsItemwise options →
        (∀ item ∈ items, ∃ b, alone s.model (some [item]) params = .ok (.results b)) →
          ∃ b, alone s.model (some items) params = .ok (.results b) ∧
            reply = .ok (.lines b.results.length) ∧ written = b.text params.withScores)) ∧
    (stage ≠ .abandoned → ∀ run : Run s, run.Fair → run.Spares i →
      ∃ n reply, (run.service n).stage? i = some (.returned reply)) := by
  obtain rfl := Options.params_of_validate hvalid
  let c : Scene := {
    model := s.model
    size := settings.poolSize.toNat
    request := { input, output, batchSize := m, options, withScores := options.params.withScores }
    files, source, content, handle, opened
    size_pos := h.poolSize_pos
    batchSize_ne_zero := hm
    fits := hfits
    find := hfind
    create := hcreate
    distinct := hdistinct
    room := hroom }
  have hsole : Sole c i s := by
    refine ⟨fun x hx => ?_, honly⟩
    rw [hcall] at hx
    cases hx
    rfl
  refine ⟨?_, ?_, ?_⟩
  · intro loader' files' settings' t k tokens reply ht hmodel hbatch
    rw [← hmodel]
    cases ht.isolated.routed _ (List.mem_of_getElem? hbatch) tokens _ rfl with
    | returned => rfl
  · rintro reply rfl
    have hscores : c.request.withScores = c.request.options.params.withScores := rfl
    obtain ⟨hreply, hreceived⟩ := Reachable.returned_eq_sequential (c := c) h rfl rfl hscores hsole
      (stage?_of_getElem? hcall)
    have hassembled : Assembled s.model options.params (chunks m items) reply _ :=
      hreply ▸ assembled_sequential hitems hscores
    exact ⟨_, hreceived, hassembled, hassembled.ok_iff, hassembled.eq_of_isItemwise hm hvalid⟩
  · intro hstage run hfair hspares
    exact run.exists_returned (c := c) h rfl rfl rfl hcall rfl honly hspares hlethal hfair hstage

/-- A call for a document of two lines, made and not yet looked at. -/
def documentCalled : Service :=
  { deskService with
    files := twoLines
    calls := [{ spec := .document "in" "out" 1 {} }] }

/-- The second line is posted while the first is with the worker. -/
def documentDone : List Action :=
  [.poll 0, .work 0, .work 0, .work 0, .work 0, .notifyWorker none, .look 0, .work 0,
    .finish 0 (Model.Echo.model {} [["c"]] .default), .notifyWorker none, .look 0, .work 0,
    .work 0, .finish 0 (Model.Echo.model {} [["d"]] .default), .work 0, .work 0, .look 0, .work 0,
    .work 0, .notifyGate, .poll 0]

theorem document_agrees_twoLines :
    ∃ run : Run documentCalled, run.Fair ∧ ∃ n b,
      alone (Model.Echo.model {}) (some [["c"], ["d"]]) {} = .ok (.results b) ∧
      (run.service n).stage? 0 = some (.returned (.ok (.lines b.results.length))) ∧
      (run.service n).files.received ["work", "out"] = b.text false := by
  have hstart : Reachable (fun _ => .ok (Model.Echo.model {})) twoLines deskSettings Follows
      documentCalled := .step (.call (.document "in" "out" 1 {})) (.start rfl) trivial rfl
  obtain ⟨s, hleads, hcalls, htasks, howed, hworkers⟩ : ∃ s, Leads Follows documentCalled
      documentDone s ∧ (∀ x ∈ s.calls, x.isActive = false) ∧
        (∀ t ∈ s.tasks, t.isInside = false) ∧ s.pool.unnotified = 0 ∧
          s.pool.workers = [.asleep] := by
    apply Exists.intro
    constructor
    · iterate 8 refine ⟨trivial, _, rfl, ?_⟩
      refine ⟨by rintro job ⟨⟩; rfl, _, rfl, ?_⟩
      iterate 4 refine ⟨trivial, _, rfl, ?_⟩
      refine ⟨by rintro job ⟨⟩; rfl, _, rfl, ?_⟩
      iterate 7 refine ⟨trivial, _, rfl, ?_⟩
      exact rfl
    · refine ⟨?_, ?_, rfl, rfl⟩
      · exact List.forall_mem_singleton.mpr rfl
      · exact List.forall_mem_singleton.mpr rfl
  obtain ⟨run, haction, hservice⟩ := Run.exists_of_leads hleads
  have hasleep : ∀ w ∈ s.pool.workers, w = .asleep := by
    rw [hworkers]
    exact List.forall_mem_singleton.mpr rfl
  have hfair : run.Fair := run.fair_of_rest hservice (not_canAct hcalls htasks howed hasleep)
  have hspares : run.Spares 0 := by
    have hall : documentDone.all (Action.spares 0) = true := rfl
    intro n a ha
    exact List.all_eq_true.mp hall a (List.mem_of_getElem? ((haction n).symm.trans ha))
  have honly : documentCalled.OnlyDocument 0 := by
    intro k x hx _
    cases k with
    | zero => rfl
    | succ k => cases hx
  have hvalid : Options.validate {} = .ok .default := rfl
  have hfind : twoLines.find "in" =
      .ok (["work", "in"], .file (Text.encode "c\nd\n")) := rfl
  have hitems : Document.items? (Text.encode "c\nd\n") = some [["c"], ["d"]] := by
    decide +kernel
  have hcreate : twoLines.create "out" =
      .ok (⟨["work", "out"], 0⟩, twoLines.set ["work", "out"] (.file [])) := rfl
  have hroom : ∀ taken room,
      twoLines.node? ["work", "out"] = some (.device taken room) → room = none := by
    intro taken room h
    cases h
  obtain ⟨-, -, hends⟩ := hstart.document_agrees hvalid Nat.one_ne_zero (by decide) hfind hitems
    hcreate (by decide) hroom (Model.Echo.model_ne_lethal {}) rfl honly
  obtain ⟨n, reply, hreturned⟩ := hends nofun run hfair hspares
  have hfirst : documentCalled.calls[0]? = some { spec := .document "in" "out" 1 {} } := rfl
  obtain ⟨⟨spec, stage⟩, hcall, rfl⟩ := run.exists_call hfirst n
  have hmodel : (run.service n).model = Model.Echo.model {} := run.model_eq n
  obtain ⟨-, hagrees, -⟩ := (run.reachable hstart n).document_agrees hvalid Nat.one_ne_zero
    (by decide) hfind hitems hcreate (by decide) hroom
    (by rw [hmodel]; exact Model.Echo.model_ne_lethal {}) hcall (run.onlyDocument hspares honly n)
  obtain rfl : stage = .returned reply := by
    rw [stage?_of_getElem? hcall] at hreturned
    exact Option.some.inj hreturned
  obtain ⟨written, hreceived, -, -, hwhole⟩ := hagrees reply rfl
  rw [hmodel] at hwhole
  have hitemwise : Model.IsItemwise (Model.Echo.model {}) .default := Model.Echo.isItemwise {} _
  obtain ⟨b, hb, hreply, hwritten⟩ := hwhole hitemwise
    (List.forall_mem_cons.mpr ⟨⟨_, rfl⟩, List.forall_mem_singleton.mpr ⟨_, rfl⟩⟩)
  exact ⟨run, hfair, n, b, hb, by rw [hreturned, hreply], by rw [hreceived, hwritten]; rfl⟩

end DecodingDesk.Service

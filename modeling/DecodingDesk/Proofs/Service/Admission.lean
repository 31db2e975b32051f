import DecodingDesk.Proofs.Model.Loader
import DecodingDesk.Proofs.Pool.Shut
import DecodingDesk.Proofs.Service.Isolation
/-!
# Which settings a service is created from

Around the echo model a service is created exactly from usable settings, and the first
condition that fails decides on the error.  Whatever the loader, it is asked once at most, and
a creation that fails leaves no worker behind.
-/

namespace DecodingDesk.Service

open Device (Names)
open Model (Echo choices placement)

variable {threads : Pool.Threads} {loader : Model.Loader} {files : Files} {settings : Settings}
  {gpuCount : Nat} {e : Echo} {device : Device} {s s' : Service} {a : Action}

/-! ## Every loader -/

/-- Of so many workers that were started none is left. -/
def NoneLeft (started : Nat) : Option Pool → Prop
  | none => started = 0
  | some p => p.size = started ∧ p.phase = .joined ∧ ∀ w ∈ p.workers, w = .exited

/-- What holds of every creation.  The loader is asked once at most, when there are workers to
start and a device to ask for; its error is the error of the creation, and its model is the one
served.  A creation that fails leaves no worker behind, and has started none unless the system
refused a thread. -/
structure Sparing (threads : Pool.Threads) (loader : Model.Loader) (settings : Settings)
    (creation : Creation) : Prop where
  once : creation.loads.length ≤ 1
  asked : ∀ r ∈ creation.loads, 0 < settings.poolSize.toNat ∧
    ∃ device, Names settings.device device ∧ r = settings.request device
  asks : 0 < settings.poolSize.toNat → ∀ device, Names settings.device device →
    creation.loads = [settings.request device]
  passesOn : ∀ r ∈ creation.loads, ∀ e, loader r = .error e →
    creation.result = .error (.error (.load e))
  serves : ∀ s, creation.result = .ok s → ∃ r ∈ creation.loads, loader r = .ok s.model
  unstarted : (∀ i < settings.poolSize.toNat, threads i = none) →
    ∀ f, creation.result = .error f → creation.started = 0 ∧ creation.dismissed = none
  noneLeft : ∀ f, creation.result = .error f → NoneLeft creation.started creation.dismissed

/-- Nothing is done before the first two conditions have been seen to hold. -/
theorem sparing_of_early {f : Failure}
    (h : 0 < settings.poolSize.toNat → ∀ device, ¬ Names settings.device device) :
    Sparing threads loader settings { result := .error f } where
  once := Nat.zero_le 1
  asked r hr := absurd hr List.not_mem_nil
  asks hpos device hdevice := absurd hdevice (h hpos device)
  passesOn r hr := absurd hr List.not_mem_nil
  serves s hs := by cases hs
  unstarted _ _ _ := ⟨rfl, rfl⟩
  noneLeft _ _ := rfl

theorem sparing_of_notLoaded {e : LoadError} (hpool : 0 < settings.poolSize.toNat)
    (hdevice : Names settings.device device) (hload : loader (settings.request device) = .error e) :
    Sparing threads loader settings
      { loads := [settings.request device], result := .error (.error (.load e)) } where
  once := Nat.le_refl 1
  asked r hr := ⟨hpool, device, hdevice, List.mem_singleton.mp hr⟩
  asks _ other hother := by rw [hdevice.eq hother]
  passesOn r hr e' he' := by
    rw [List.mem_singleton.mp hr, hload] at he'
    cases he'
    rfl
  serves s hs := by cases hs
  unstarted _ _ _ := ⟨rfl, rfl⟩
  noneLeft _ _ := rfl

theorem sparing_of_made {model : Model} {making : Pool.Making}
    (hpool : 0 < settings.poolSize.toNat) (hdevice : Names settings.device device)
    (hload : loader (settings.request device) = .ok model)
    (hmade : Pool.Made threads model settings.poolSize.toNat making) :
    Sparing threads loader settings
      { loads := [settings.request device]
        started := making.started
        dismissed := making.dismissed
        result := making.result.map fun pool =>
          { model, device, deviceIndex := settings.deviceIndex, pool, files } } where
  once := Nat.le_refl 1
  asked r hr := ⟨hpool, device, hdevice, List.mem_singleton.mp hr⟩
  asks _ other hother := by rw [hdevice.eq hother]
  passesOn r hr e he := by
    rw [List.mem_singleton.mp hr, hload] at he
    cases he
  serves s hs := by
    refine ⟨_, List.mem_singleton_self _, ?_⟩
    cases hmade with
    | empty | noRoom | refused => cases hs
    | all =>
      cases hs
      exact hload
  unstarted hgranted f hf := by
    cases hmade with
    | empty | noRoom => exact ⟨rfl, rfl⟩
    | refused hrefuses => exact absurd hgranted hrefuses.not_granted
    | all => cases hf
  noneLeft f hf := by
    cases hmade with
    | empty | noRoom => rfl
    | refused => exact Pool.shut_start model _
    | all => cases hf

theorem sparing_createWith (threads : Pool.Threads) (loader : Model.Loader) (files : Files)
    (settings : Settings) :
    Sparing threads loader settings (createWith threads loader files settings) := by
  have hcreated := created_createWith threads loader files settings
  generalize createWith threads loader files settings = creation at hcreated
  cases hcreated with
  | noWorkers hpool =>
    exact sparing_of_early fun hpos => absurd hpool (Settings.poolSize_pos_iff.mp hpos)
  | unknownDevice hpool hnone => exact sparing_of_early fun _ => hnone
  | notLoaded hpool hdevice hload =>
    exact sparing_of_notLoaded (Settings.poolSize_pos_iff.mpr hpool) hdevice hload
  | loaded hpool hdevice hload hmade =>
    exact sparing_of_made (Settings.poolSize_pos_iff.mpr hpool) hdevice hload hmade

/-! ## What serves afterwards -/

theorem Step.device_eq (hstep : Step s a s') :
    s'.device = s.device ∧ s'.deviceIndex = s.deviceIndex := by
  cases hstep <;> exact ⟨rfl, rfl⟩

/-- The model and the device stay what they are. -/
theorem Leads.unchanged {Allows : Service → Action → Prop} {actions : List Action}
    (h : Leads Allows s actions s') :
    s'.model = s.model ∧ s'.device = s.device ∧ s'.deviceIndex = s.deviceIndex := by
  induction actions generalizing s with
  | nil =>
    cases h
    exact ⟨rfl, rfl, rfl⟩
  | cons a rest ih =>
    obtain ⟨-, next, hnext, hrest⟩ := h
    have hstep := step_of_step? hnext
    obtain ⟨hmodel, hdevice, hindex⟩ := ih hrest
    exact ⟨hmodel.trans hstep.model_eq, hdevice.trans hstep.device_eq.1,
      hindex.trans hstep.device_eq.2⟩

/-- All workers serve one model, on the device that was asked for. -/
structure Serves (settings : Settings) (model : Model) (device : Device) (s : Service) : Prop where
  size_eq : s.pool.size = settings.poolSize.toNat
  model_eq : s.model = model
  answers : ∀ x ∈ s.pool.answers, x.outcome = model x.job.batch x.job.options
  device_eq : s.device = device
  deviceIndex_eq : s.deviceIndex = settings.deviceIndex

theorem Reachable.serves (h : Reachable loader files settings Follows s)
    (hindex : s.deviceIndex = settings.deviceIndex) {actions : List Action}
    (hleads : Leads Follows s actions s') : Serves settings s.model s.device s' := by
  have h' := h.leads hleads
  obtain ⟨hmodel, hdevice, hindex'⟩ := hleads.unchanged
  exact {
    size_eq := h'.held.pool.length_workers
    model_eq := hmodel
    answers := fun x hx => by rw [← hmodel, h'.obeys.answer x hx]
    device_eq := hdevice
    deviceIndex_eq := hindex'.trans hindex }

/-! ## The echo model -/

/-- Settings that name a device and can be used with it. -/
structure Settings.Usable (settings : Settings) (files : Files) (gpuCount : Nat)
    (device : Device) : Prop where
  workers_pos : 0 < settings.poolSize.toNat
  names : Names settings.device device
  pathExists : files.pathExists settings.modelPath = true
  index_lt : settings.deviceIndex.toNat < choices gpuCount device

/-- Why settings are refused: the first of the four conditions that fails. -/
inductive Settings.Refused (settings : Settings) (files : Files) (gpuCount : Nat) :
    Error → Prop where
  | workers (h : settings.poolSize.toNat = 0) :
      Refused settings files gpuCount (.options .zeroPoolSize)
  | device (hworkers : 0 < settings.poolSize.toNat) (h : ∀ d, ¬ Names settings.device d) :
      Refused settings files gpuCount
        (.load (.unknownDevice (Device.normalize settings.device)))
  | path {device : Device} (hworkers : 0 < settings.poolSize.toNat)
      (hdevice : Names settings.device device)
      (h : files.pathExists settings.modelPath = false) :
      Refused settings files gpuCount (.load (.missingPath settings.modelPath))
  | index {device : Device} (hworkers : 0 < settings.poolSize.toNat)
      (hdevice : Names settings.device device)
      (hpath : files.pathExists settings.modelPath = true)
      (h : choices gpuCount device ≤ settings.deviceIndex.toNat) :
      Refused settings files gpuCount (.load (.indexOutOfRange settings.deviceIndex.toNat
        (placement gpuCount device) (choices gpuCount device)))

theorem Settings.Refused.result_eq {err : Error} (h : settings.Refused files gpuCount err) :
    (createWith threads (e.loader files gpuCount) files settings).result = .error (.error err) := by
  cases h with
  | workers h => rw [createWith_of_zero (UInt64.toNat_inj.mp h)]
  | device hworkers h => rw [createWith_of_not_names (poolSize_pos_iff.mp hworkers) h]
  | path hworkers hdevice h =>
    rw [createWith_of_error (poolSize_pos_iff.mp hworkers) hdevice
      (Echo.loader_of_not_exists h)]
    rfl
  | index hworkers hdevice hpath h =>
    rw [createWith_of_error (poolSize_pos_iff.mp hworkers) hdevice
      (Echo.loader_of_choices_le hpath h)]
    rfl

/-- Settings are refused, or they can be used. -/
theorem Settings.refused_or_usable (settings : Settings) (files : Files) (gpuCount : Nat) :
    (∃ err, settings.Refused files gpuCount err) ∨ ∃ device, settings.Usable files gpuCount device := by
  rcases Nat.eq_zero_or_pos settings.poolSize.toNat with hzero | hworkers
  · exact .inl ⟨_, .workers hzero⟩
  by_cases hnone : ∀ d, ¬ Names settings.device d
  · exact .inl ⟨_, .device hworkers hnone⟩
  obtain ⟨device, hdevice⟩ := not_forall_not.mp hnone
  cases hpath : files.pathExists settings.modelPath with
  | false => exact .inl ⟨_, .path hworkers hdevice hpath⟩
  | true =>
    rcases Nat.lt_or_ge settings.deviceIndex.toNat (choices gpuCount device) with hlt | hge
    · exact .inr ⟨device, hworkers, hdevice, hpath, hlt⟩
    · exact .inl ⟨_, .index hworkers hdevice hpath hge⟩

/-- The service that usable settings give. -/
def Settings.service (settings : Settings) (model : Model) (device : Device) (files : Files) :
    Service :=
  { model, device, deviceIndex := settings.deviceIndex,
    pool := Pool.start settings.poolSize.toNat, files }

theorem Settings.Usable.createWith_eq (h : settings.Usable files gpuCount device)
    (hthreads : threads.Suffice settings.poolSize.toNat) :
    createWith threads (e.loader files gpuCount) files settings =
      { loads := [settings.request device]
        started := settings.poolSize.toNat
        result := .ok (settings.service e.model device files) } := by
  rw [createWith_of_ok (poolSize_pos_iff.mp h.workers_pos) h.names
    (Echo.loader_of_lt_choices h.pathExists h.index_lt),
    Pool.make_of_suffice h.workers_pos hthreads]
  rfl

/-- What creation around the echo model comes to: a service exactly from usable settings, which
serves from then on, and else the error of the first condition that fails. -/
structure Exact (settings : Settings) (files : Files) (gpuCount : Nat) (e : Echo)
    (creation : Creation) : Prop where
  succeeds : (∃ s, creation.result = .ok s) ↔ ∃ device, settings.Usable files gpuCount device
  serves : ∀ device, settings.Usable files gpuCount device → ∃ s, creation.result = .ok s ∧
    creation.started = settings.poolSize.toNat ∧ (∀ w ∈ s.pool.workers, w = .ready) ∧
      ∀ actions s', Leads Follows s actions s' → Serves settings e.model device s'
  refused : ∀ f, creation.result = .error f ↔
    ∃ err, settings.Refused files gpuCount err ∧ f = .error err

theorem exact_createWith (hthreads : threads.Suffice settings.poolSize.toNat) (e : Echo)
    (gpuCount : Nat) : Exact settings files gpuCount e
      (createWith threads (e.loader files gpuCount) files settings) where
  succeeds := by
    constructor
    · rintro ⟨s, hs⟩
      refine (settings.refused_or_usable files gpuCount).resolve_left ?_
      rintro ⟨err, hrefused⟩
      rw [hrefused.result_eq] at hs
      cases hs
    · rintro ⟨device, husable⟩
      exact ⟨_, by rw [husable.createWith_eq hthreads]⟩
  serves device husable := by
    have hcreate : (create (e.loader files gpuCount) files settings).result =
        .ok (settings.service e.model device files) := by
      rw [create, husable.createWith_eq (Pool.Threads.suffice_granted hthreads.fits)]
    refine ⟨_, by rw [husable.createWith_eq hthreads], by rw [husable.createWith_eq hthreads],
      fun w hw => List.eq_of_mem_replicate hw, fun actions s' hleads => ?_⟩
    exact (Reachable.start hcreate).serves rfl hleads
  refused f := by
    constructor
    · intro hf
      rcases settings.refused_or_usable files gpuCount with ⟨err, hrefused⟩ | ⟨device, husable⟩
      · rw [hrefused.result_eq] at hf
        exact ⟨err, hrefused, (Except.error.inj hf).symm⟩
      · rw [husable.createWith_eq hthreads] at hf
        cases hf
    · rintro ⟨err, hrefused, rfl⟩
      exact hrefused.result_eq

/-- When the system has room and threads for the workers, a service around the echo model is
created exactly from usable settings, and else the first condition that fails decides.  Whatever
the loader, it is asked for one model at most, and a creation that fails leaves no worker
behind. -/
theorem created_from_usable_settings (threads : Pool.Threads) (files : Files)
    (settings : Settings) :
    (threads.Suffice settings.poolSize.toNat → ∀ (e : Echo) (gpuCount : Nat),
      Exact settings files gpuCount e
        (createWith threads (e.loader files gpuCount) files settings)) ∧
    ∀ loader : Model.Loader,
      Sparing threads loader settings (createWith threads loader files settings) :=
  ⟨fun hthreads => exact_createWith hthreads, fun loader =>
    sparing_createWith threads loader files settings⟩

/-- A working directory with a model. -/
def modelFiles : Files :=
  Files.empty.set ["work", "m"] .directory

/-- Two workers, with a device left to the loader. -/
def automatic (index : UInt64) : Settings where
  modelPath := "m"
  device := "\u00a0Auto\n"
  deviceIndex := index
  poolSize := 2

theorem names_automatic (index : UInt64) : Names (automatic index).device .auto :=
  ⟨"auto", List.mem_singleton_self _, ['\u00a0'], ['A', 'u', 't', 'o'], ['\n'],
    by simp [automatic], List.forall_mem_singleton.mpr rfl, List.forall_mem_singleton.mpr rfl,
    by simp⟩

theorem created_from_usable_settings_twoAccelerators :
    Pool.Threads.granted.Suffice 2 ∧
      (∃ s, (createWith .granted (Echo.loader {} modelFiles 2) modelFiles (automatic 1)).result =
          .ok s ∧ Serves (automatic 1) (Echo.model {}) .auto s) ∧
      (createWith .granted (Echo.loader {} modelFiles 2) modelFiles (automatic 2)).result =
        .error (.error (.load (.indexOutOfRange 2 .cuda 2))) ∧
      (createWith .granted (Echo.loader {} modelFiles 2) modelFiles (automatic 2)).started = 0 := by
  have hthreads : Pool.Threads.granted.Suffice 2 := Pool.Threads.suffice_granted (by decide)
  have hpath : modelFiles.pathExists "m" = true := by decide +kernel
  obtain ⟨hexact, -⟩ := created_from_usable_settings .granted modelFiles (automatic 1)
  obtain ⟨hexact', hsparing⟩ := created_from_usable_settings .granted modelFiles (automatic 2)
  obtain ⟨s, hs, -, -, hserves⟩ := (hexact hthreads {} 2).serves .auto
    ⟨by decide, names_automatic 1, hpath, by decide⟩
  have herror := ((hexact' hthreads {} 2).refused _).mpr
    ⟨_, .index (by decide) (names_automatic 2) hpath (by decide), rfl⟩
  exact ⟨hthreads, ⟨s, hs, hserves [] s rfl⟩, herror,
    ((hsparing _).unstarted hthreads.granted _ herror).1⟩

end DecodingDesk.Service

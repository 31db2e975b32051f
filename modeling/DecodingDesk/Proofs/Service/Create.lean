import DecodingDesk.Proofs.Device
import DecodingDesk.Proofs.Pool.Making
import DecodingDesk.Service.Create
/-!
# What creating a service comes to

Creating a service stops before the loader is called, with the loader's error, or with what
came of making the pool.  There is one case for each, with what was done until then.
-/

namespace DecodingDesk.Service

open Device (Names)

variable {threads : Pool.Threads} {loader : Model.Loader} {files : Files} {settings : Settings}
  {device : Device} {s : Service}

theorem Settings.poolSize_pos_iff : 0 < settings.poolSize.toNat ↔ settings.poolSize ≠ 0 := by
  rw [Nat.pos_iff_ne_zero, ne_eq, ne_eq, ← UInt64.toNat_inj]
  rfl

/-! ## Where it stops -/

theorem createWith_of_zero (hpool : settings.poolSize = 0) :
    createWith threads loader files settings =
      { result := .error (.error (.options .zeroPoolSize)) } := by
  rw [createWith, if_pos hpool]

theorem createWith_of_not_names (hpool : settings.poolSize ≠ 0)
    (hnone : ∀ d, ¬ Names settings.device d) :
    createWith threads loader files settings =
      { result := .error (.error (.load (.unknownDevice (Device.normalize settings.device)))) } := by
  rw [createWith, if_neg hpool, Device.select_eq_error_iff.mpr ⟨hnone, rfl⟩]

theorem createWith_of_error {e : LoadError} (hpool : settings.poolSize ≠ 0)
    (hdevice : Names settings.device device) (hload : loader (settings.request device) = .error e) :
    createWith threads loader files settings =
      { loads := [settings.request device], result := .error (.error (.load e)) } := by
  rw [createWith, if_neg hpool, Device.select_eq_ok_iff.mpr hdevice]
  simp only [hload]

theorem createWith_of_ok {model : Model} (hpool : settings.poolSize ≠ 0)
    (hdevice : Names settings.device device) (hload : loader (settings.request device) = .ok model) :
    createWith threads loader files settings =
      { loads := [settings.request device]
        started := (Pool.make threads model settings.poolSize.toNat).started
        dismissed := (Pool.make threads model settings.poolSize.toNat).dismissed
        result := (Pool.make threads model settings.poolSize.toNat).result.map fun pool =>
          { model, device, deviceIndex := settings.deviceIndex, pool, files } } := by
  rw [createWith, if_neg hpool, Device.select_eq_ok_iff.mpr hdevice]
  simp only [hload]

/-! ## All cases -/

/-- What creating a service comes to, and why. -/
inductive Created (threads : Pool.Threads) (loader : Model.Loader) (files : Files)
    (settings : Settings) : Creation → Prop where
  | noWorkers (hpool : settings.poolSize = 0) :
      Created threads loader files settings
        { result := .error (.error (.options .zeroPoolSize)) }
  | unknownDevice (hpool : settings.poolSize ≠ 0) (hnone : ∀ d, ¬ Names settings.device d) :
      Created threads loader files settings
        { result := .error (.error (.load
            (.unknownDevice (Device.normalize settings.device)))) }
  | notLoaded {device : Device} {e : LoadError} (hpool : settings.poolSize ≠ 0)
      (hdevice : Names settings.device device)
      (hload : loader (settings.request device) = .error e) :
      Created threads loader files settings
        { loads := [settings.request device], result := .error (.error (.load e)) }
  | loaded {device : Device} {model : Model} {making : Pool.Making}
      (hpool : settings.poolSize ≠ 0) (hdevice : Names settings.device device)
      (hload : loader (settings.request device) = .ok model)
      (hmade : Pool.Made threads model settings.poolSize.toNat making) :
      Created threads loader files settings
        { loads := [settings.request device]
          started := making.started
          dismissed := making.dismissed
          result := making.result.map fun pool =>
            { model, device, deviceIndex := settings.deviceIndex, pool, files } }

theorem created_createWith (threads : Pool.Threads) (loader : Model.Loader) (files : Files)
    (settings : Settings) :
    Created threads loader files settings (createWith threads loader files settings) := by
  by_cases hpool : settings.poolSize = 0
  · rw [createWith_of_zero hpool]
    exact .noWorkers hpool
  by_cases hnone : ∀ d, ¬ Names settings.device d
  · rw [createWith_of_not_names hpool hnone]
    exact .unknownDevice hpool hnone
  obtain ⟨device, hdevice⟩ := not_forall_not.mp hnone
  cases hload : loader (settings.request device) with
  | error e =>
    rw [createWith_of_error hpool hdevice hload]
    exact .notLoaded hpool hdevice hload
  | ok model =>
    rw [createWith_of_ok hpool hdevice hload]
    exact .loaded hpool hdevice hload (Pool.made_make threads model _)

/-- A service is created when there are workers, a device that the selector names and a model
that the loader gives for it. -/
theorem createWith_eq_ok_iff : (createWith threads loader files settings).result = .ok s ↔
    0 < settings.poolSize.toNat ∧ threads.Suffice settings.poolSize.toNat ∧
      ∃ device model, Names settings.device device ∧
        loader (settings.request device) = .ok model ∧
        s = { model, device, deviceIndex := settings.deviceIndex,
              pool := Pool.start settings.poolSize.toNat, files } := by
  constructor
  · have hcreated := created_createWith threads loader files settings
    generalize createWith threads loader files settings = creation at hcreated
    intro h
    cases hcreated with
    | noWorkers | unknownDevice | notLoaded => cases h
    | loaded hpool hdevice hload hmade =>
      cases hmade with
      | empty | noRoom | refused => cases h
      | all hsize hsuffice =>
        cases h
        exact ⟨hsize, hsuffice, _, _, hdevice, hload, rfl⟩
  · rintro ⟨hsize, hsuffice, device, model, hdevice, hload, rfl⟩
    rw [createWith_of_ok (Settings.poolSize_pos_iff.mp hsize) hdevice hload,
      Pool.make_of_suffice hsize hsuffice]
    rfl

end DecodingDesk.Service

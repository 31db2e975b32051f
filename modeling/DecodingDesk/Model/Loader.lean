import DecodingDesk.Config
import DecodingDesk.Model.Scripted
/-!
# Loading models

A loader turns a load request into a model or refuses it.  The loader of the echo
model asks that the model path exists and that there is a device with the index.
-/

namespace DecodingDesk

def Device.select (selector : String) : Except LoadError Device :=
  match Device.ofName? (Device.normalize selector) with
  | some d => .ok d
  | none => .error (.unknownDevice (Device.normalize selector))

namespace Model

structure LoadRequest where
  modelPath : String
  device : Device
  deviceIndex : UInt64
  backend : BackendSettings
deriving DecidableEq, Repr

abbrev Loader := LoadRequest → Except LoadError Model

/-- The device on which a model is placed when there are so many accelerators. -/
def placement (gpuCount : Nat) : Device → Device
  | .auto => if 0 < gpuCount then .cuda else .cpu
  | d => d

/-- How many devices of a kind there are when there are so many accelerators. -/
def available (gpuCount : Nat) : Device → Nat
  | .cuda => gpuCount
  | _ => 1

/-- The loader of the echo model. -/
def Echo.loader (e : Echo) (files : Files) (gpuCount : Nat) : Loader := fun r =>
  let device := placement gpuCount r.device
  if !files.pathExists r.modelPath then .error (.missingPath r.modelPath)
  else if available gpuCount device ≤ r.deviceIndex.toNat then
    .error (.indexOutOfRange r.deviceIndex.toNat device (available gpuCount device))
  else .ok e.model

end Model

end DecodingDesk

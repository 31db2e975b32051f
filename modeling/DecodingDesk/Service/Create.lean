import DecodingDesk.Pool.Making
import DecodingDesk.Service
/-!
# Creating a service

The number of workers is looked at first, then the device selector; only then is
the loader called, once.  After that the workers are started around the model, as
far as the system has threads for them.
-/

namespace DecodingDesk

open Model (LoadRequest Loader)

namespace Service

structure Settings where
  modelPath : String
  device : String
  deviceIndex : UInt64
  poolSize : UInt64
  backend : BackendSettings := {}
deriving DecidableEq, Repr

def Settings.ofConfig (c : Config) : Settings where
  modelPath := c.modelPath
  device := c.device
  deviceIndex := c.deviceIndex
  poolSize := c.poolSize
  backend := c.backend

/-- What the loader is asked for when the selector names a device. -/
def Settings.request (settings : Settings) (device : Device) : LoadRequest where
  modelPath := settings.modelPath
  device := device
  deviceIndex := settings.deviceIndex
  backend := settings.backend

/-- What came of creating a service, what the loader was asked on the way, and what became of
the workers. -/
structure Creation where
  loads : List LoadRequest := []
  /-- how many workers were started -/
  started : Nat := 0
  /-- the workers that were started in vain, after they have been shut down again -/
  dismissed : Option Pool := none
  result : Except Failure Service

/-- Creates a service, if the system has the threads for its workers. -/
def createWith (threads : Pool.Threads) (loader : Loader) (files : Files) (settings : Settings) :
    Creation :=
  if settings.poolSize = 0 then { result := .error (.error (.options .zeroPoolSize)) }
  else
    match Device.select settings.device with
    | .error e => { result := .error (.error (.load e)) }
    | .ok device =>
      let request := settings.request device
      match loader request with
      | .error e => { loads := [request], result := .error (.error (.load e)) }
      | .ok model =>
        let making := Pool.make threads model settings.poolSize.toNat
        { loads := [request]
          started := making.started
          dismissed := making.dismissed
          result := making.result.map fun pool =>
            { model, device, deviceIndex := settings.deviceIndex, pool, files } }

/-- Creates a service where every worker gets its thread. -/
def create (loader : Loader) (files : Files) (settings : Settings) : Creation :=
  createWith .granted loader files settings

/-- The services that can come about from a new one by actions of some kind. -/
inductive Reachable (loader : Loader) (files : Files) (settings : Settings)
    (Allows : Service → Action → Prop) : Service → Prop where
  | start {s : Service} : (create loader files settings).result = .ok s →
      Reachable loader files settings Allows s
  | step {s s' : Service} (a : Action) : Reachable loader files settings Allows s →
      Allows s a → s.step? a = some s' → Reachable loader files settings Allows s'

end Service

end DecodingDesk

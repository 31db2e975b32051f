import DecodingDesk.Model.Loader
/-!
# The loader of the echo model

The path is looked at first; then the index has to be below the number of devices that the
request leaves to choose from.
-/

namespace DecodingDesk.Model

variable {e : Echo} {files : Files} {gpuCount : Nat} {r : LoadRequest}

/-- How many devices a request leaves to choose from, when there are so many accelerators. -/
def choices (gpuCount : Nat) : Device → Nat
  | .cpu => 1
  | .cuda => gpuCount
  | .auto => if 0 < gpuCount then gpuCount else 1

theorem available_placement (gpuCount : Nat) (d : Device) :
    available gpuCount (placement gpuCount d) = choices gpuCount d := by
  cases d with
  | cpu | cuda => rfl
  | auto =>
    by_cases hgpu : 0 < gpuCount
    · simp [placement, choices, available, hgpu]
    · simp [placement, choices, available, hgpu]

namespace Echo

theorem loader_of_not_exists (h : files.pathExists r.modelPath = false) :
    e.loader files gpuCount r = .error (.missingPath r.modelPath) := by
  simp [loader, h]

theorem loader_of_choices_le (hpath : files.pathExists r.modelPath = true)
    (h : choices gpuCount r.device ≤ r.deviceIndex.toNat) :
    e.loader files gpuCount r = .error (.indexOutOfRange r.deviceIndex.toNat
      (placement gpuCount r.device) (choices gpuCount r.device)) := by
  simp [loader, hpath, available_placement, h]

theorem loader_of_lt_choices (hpath : files.pathExists r.modelPath = true)
    (h : r.deviceIndex.toNat < choices gpuCount r.device) :
    e.loader files gpuCount r = .ok e.model := by
  simp [loader, hpath, available_placement, Nat.not_le.mpr h]

end Echo

end DecodingDesk.Model

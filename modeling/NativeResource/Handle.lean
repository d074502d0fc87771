import NativeResource.Effect
/-!
Handles and the duty to release them. A family says which raw values mean "no handle" and how a
live one is closed; a handle closes its raw value at most once, and never if it is a view or holds
its family's sentinel. Releasing reports a failed close to the caller, dropping to the log.
-/
namespace NativeResource

structure Family (σ : Type) where
  name : String
  sentinel : Sentinel
  close : RawHandle → Action σ (Except Failure Unit)

def Family.debug (f : Family σ) : String :=
  Text.record "Family" [("name", Text.quote f.name), ("sentinel", f.sentinel.name)]

structure Handle (σ : Type) where
  raw : RawHandle
  family : Family σ
  owns : Bool
  released : Bool := false

namespace Handle

def isInvalid (h : Handle σ) : Bool := h.family.sentinel.holds h.raw

/-- The raw value for use in a call; refused for a sentinel and after release. -/
def borrow (h : Handle σ) : Except Failure RawHandle :=
  if h.isInvalid then .error ⟨.invalidHandle h.family.name, none⟩
  else if h.released then .error ⟨.releasedHandle h.family.name, none⟩
  else .ok h.raw

def view (h : Handle σ) : Handle σ := { h with owns := false }

def markReleased (h : Handle σ) : Handle σ := { h with released := true }

def isLive (h : Handle σ) : Bool := !h.released && h.owns && !h.isInvalid

/-- Releases now. Afterwards the handle counts as released, whether closing failed or not. -/
def release (h : Handle σ) : Action σ (Except Failure Unit × Handle σ) :=
  if h.isLive then do
    Action.report (.releasing h.family.name h.raw)
    let result ← h.family.close h.raw
    return (result, h.markReleased)
  else pure (.ok (), h.markReleased)

def drop (h : Handle σ) : Action σ Unit := do
  match (← h.release).1 with
  | .ok () => pure ()
  | .error f => Action.report (.dropFailed h.family.name f)

/-- Gives up the duty to release, and with it the handle; refused if the value is no longer live. -/
def relinquish (h : Handle σ) : Action σ (Except Failure RawHandle) := do
  h.markReleased.drop
  return if h.released then .error ⟨.releasedHandle h.family.name, none⟩ else .ok h.raw

def debug (h : Handle σ) : String :=
  Text.record "OwnedResource"
    [("family", Text.quote h.family.name), ("raw", RawHandle.debug h.raw),
      ("owns", Text.yesNo h.owns), ("released", Text.yesNo h.released)]

end Handle

end NativeResource

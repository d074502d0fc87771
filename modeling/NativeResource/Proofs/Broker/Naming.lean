import NativeResource.Host.Script
import NativeResource.Proofs.Broker.Acquiring
/-!
What a failed acquisition is said to concern. Whoever opens something by a path or a name learns
which one could not be opened, however far the acquisition got. The exception is a subkey of a key
that is no longer usable: that failure tells of the key, by its family, and not of the subkey.
-/
namespace NativeResource

variable {σ : Type}

/-- A result that, if it is a failure, is one about the given thing. -/
def FailsAbout (subject : Option String) (result : Except Failure α) : Prop :=
  ∀ f, result = .error f → f.context = subject

theorem failsAbout_error {f : Failure} {subject : Option String} (hf : f.context = subject) :
    FailsAbout subject (.error f : Except Failure α) := by
  intro g hg
  cases hg
  exact hf

theorem failsAbout_ite {f : Failure} {subject : Option String} (hf : f.context = subject)
    (c : Prop) [Decidable c] (a : α) : FailsAbout subject (if c then .error f else .ok a) := by
  by_cases hc : c
  · rw [if_pos hc]
    exact failsAbout_error hf
  · rw [if_neg hc]
    exact nofun

namespace Host

theorem failsAbout_adopt (host : Host σ) (f : ResourceFamily) (raw : RawHandle)
    (context : String) (s : σ) : FailsAbout (some context) (host.adopt f raw context s).value := by
  rw [adopt_apply]
  exact failsAbout_ite rfl _ _

theorem failsAbout_conclude (host : Host σ) (f : ResourceFamily) (raw : RawHandle)
    (context : String) (checked : Except Failure Unit) (s : σ) :
    FailsAbout (some context) (host.conclude f raw context checked s).value := by
  cases checked with
  | error failure => exact failsAbout_error rfl
  | ok u => exact failsAbout_ite rfl _ _

theorem failsAbout_openObject (host : Host σ) (path : String)
    (call : ObjectAttributes → Action σ OpenReply) (s : σ) :
    FailsAbout (some path) (host.openObject path call s).value := by
  cases hpath : ObjectAttributes.ofPath? path with
  | none =>
    rw [openObject_of_none hpath]
    exact failsAbout_error rfl
  | some attributes =>
    rw [openObject_eq_conclude hpath, Action.bind_apply]
    exact host.failsAbout_conclude .ntObject _ path _ _

theorem failsAbout_openRegistryKey {parent : Handle σ} {root : RawHandle}
    (hborrow : parent.borrow = .ok root) (host : Host σ) (subkey : String) (access : UInt32)
    (s : σ) : FailsAbout (some subkey) (host.openRegistryKey parent subkey access s).value := by
  rw [openRegistryKey, hborrow]
  exact host.failsAbout_conclude .registryKey _ subkey _ _

end Host

namespace Acquisition

/-- What it is given to open: a path, a subkey or a name. The token is always that of the running
process, and memory has no name. -/
def subject : Acquisition σ → Option String
  | file path .. => some path.text
  | directoryObject path _ | linkObject path _ => some path
  | registryKey _ subkey _ => some subkey
  | systemStore name => some name
  | processToken _ => some Host.processContext
  | heapBlock _ | globalBlock _ => none

def orphaned : Acquisition σ → Bool
  | registryKey parent .. => parent.isInvalid || parent.released
  | _ => false

theorem orphaned_registryKey (parent : Handle σ) (subkey : String) (access : UInt32) :
    (registryKey parent subkey access).orphaned =
      match parent.borrow with
      | .ok _ => false
      | .error _ => true := by
  rw [orphaned, Handle.borrow]
  cases parent.isInvalid <;> cases parent.released <;> rfl

variable {host : Host σ} {a : Acquisition σ} {s : σ} {f : Failure}

theorem perform_of_orphaned (h : a.orphaned = true) (host : Host σ) (s : σ) :
    ∃ f, a.perform host s = ⟨.error f, s, []⟩ ∧ f.context = none ∧ f.kind = .invalidHandle := by
  cases a with
  | registryKey parent subkey access =>
    rw [orphaned_registryKey] at h
    cases hborrow : parent.borrow with
    | error f =>
      obtain ⟨hkind, hcontext⟩ := Handle.refused_of_borrow_error hborrow
      exact ⟨f, Host.openRegistryKey_of_error hborrow host subkey access s, hcontext, hkind⟩
    | ok root =>
      rw [hborrow] at h
      cases h
  | file | directoryObject | linkObject | processToken | systemStore | heapBlock | globalBlock =>
    cases h

theorem failsAbout_perform (h : a.orphaned = false) (host : Host σ) (s : σ) :
    FailsAbout a.subject (a.perform host s).value := by
  cases a with
  | file path access share disposition => exact host.failsAbout_adopt .file _ path.text _
  | registryKey parent subkey access =>
    rw [orphaned_registryKey] at h
    cases hborrow : parent.borrow with
    | ok root => exact Host.failsAbout_openRegistryKey hborrow host subkey access s
    | error f =>
      rw [hborrow] at h
      cases h
  | directoryObject path access => exact host.failsAbout_openObject path _ s
  | linkObject path access => exact host.failsAbout_openObject path _ s
  | processToken access => exact host.failsAbout_conclude .kernelObject _ Host.processContext _ _
  | systemStore name => exact host.failsAbout_adopt .certificateStore _ name _
  | heapBlock bytes => exact failsAbout_ite rfl _ _
  | globalBlock bytes => exact failsAbout_ite rfl _ _

/-- Every failed acquisition names what it was to open, except below a key that holds no value or
was released: then the failure names nothing, and no call was made. -/
theorem failure_names_subject (hfail : (a.perform host s).value = .error f) :
    (a.orphaned = false → f.context = a.subject) ∧
      (a.orphaned = true →
        f.context = none ∧ f.kind = .invalidHandle ∧ a.perform host s = ⟨.error f, s, []⟩) := by
  refine ⟨fun h => failsAbout_perform h host s f hfail, fun h => ?_⟩
  obtain ⟨g, hrun, hcontext, hkind⟩ := perform_of_orphaned h host s
  rw [hrun] at hfail
  cases hfail
  exact ⟨hcontext, hkind, hrun⟩

/-- The system opens the key and hands out zero for it; it hands out zero for a file, too, whose
path ends in half of a pair. -/
theorem failure_names_subject_handed_zero :
    let host := HostScript.host 0
    let key : Acquisition HostScript := .registryKey (host.rootKey .localMachine) "Software" 0x20019
    let odd : Acquisition HostScript := .file ⟨[0x41, 0xD800]⟩ 0x80000000 1 3
    (∃ f, (key.perform host {}).value = .error f ∧ f.context = some "Software") ∧
      ∃ f, (odd.perform host {}).value = .error f ∧ f.context = some "A\uFFFD" := by
  intro host key odd
  have hkey : (key.perform host {}).value =
      .error ⟨.openedInvalid "registry key", some "Software"⟩ := rfl
  have hodd : (odd.perform host {}).value =
      .error ((Failure.reported (.win32 (host.lastError {}))).withContext "A\uFFFD") := rfl
  exact ⟨⟨_, hkey, (failure_names_subject hkey).1 rfl⟩, _, hodd, (failure_names_subject hodd).1 rfl⟩

/-- What could not be opened below a released key is not named. -/
theorem failure_below_released_key_unnamed :
    let host := HostScript.host 0
    let root := ((host.rootKey .localMachine).release {}).value.2
    ∃ f, ((registryKey root "Software" 0x20019).perform host {}).value = .error f ∧
      f.context ≠ some "Software" :=
  ⟨⟨.releasedHandle "registry key", none⟩, rfl, nofun⟩

end Acquisition

end NativeResource

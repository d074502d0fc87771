import NativeResource.Proofs.Broker.Conduct
/-!
What an acquisition does. It makes one native call, or none if it can tell beforehand that there
is nothing to ask for. It gives a handle exactly if the call told success in its own way and handed
out a value that is not its family's sentinel, and that handle owns that value.
-/
namespace NativeResource

variable {σ ω : Type}

inductive Acquisition (σ : Type) where
  | file (path : NativePath) (access share disposition : UInt32)
  | registryKey (parent : Handle σ) (subkey : String) (access : UInt32)
  | directoryObject (path : String) (access : UInt32)
  | linkObject (path : String) (access : UInt32)
  | processToken (access : UInt32)
  | systemStore (name : String)
  | heapBlock (bytes : Nat)
  | globalBlock (bytes : Nat)

/-- The value that a reply hands out, if the call succeeded. Some calls tell success by the value
alone, others by an error code of zero, a status with a clear top bit, or a flag. -/
def Request.obtained? : (r : Request) → r.Reply → Option RawHandle
  | .createFile .., (raw : RawHandle) | .openSystemStore .., (raw : RawHandle)
  | .heapAlloc .., (raw : RawHandle) | .globalAlloc .., (raw : RawHandle) => some raw
  | .openKey .., (opened : OpenReply) =>
    if opened.status = 0 then some opened.handle else none
  | .openDirectoryObject .., (opened : OpenReply) | .openSymbolicLink .., (opened : OpenReply) =>
    if opened.status < 0x80000000 then some opened.handle else none
  | .openProcessToken .., (opened : TokenOpenReply) =>
    if opened.ok then some opened.handle else none
  | _, _ => none

def ObjectAttributes.ofPath? (path : String) : Option ObjectAttributes :=
  let units := Utf16.encode path
  if units.length ≤ 32767 then
    let bytes := UInt16.ofNat (units.length * 2)
    some ⟨48, 0, ⟨units, bytes, bytes⟩, caseInsensitive⟩
  else none

namespace Acquisition

def perform (host : Host σ) : Acquisition σ → Action σ (Except Failure (Handle σ))
  | file path access share disposition => host.openFile path access share disposition
  | registryKey parent subkey access => host.openRegistryKey parent subkey access
  | directoryObject path access => host.openDirectoryObject path access
  | linkObject path access => host.openSymbolicLinkObject path access
  | processToken access => host.openProcessToken access
  | systemStore name => host.openSystemStore name
  | heapBlock bytes => host.allocateHeap bytes
  | globalBlock bytes => host.allocateGlobal bytes

def family : Acquisition σ → ResourceFamily
  | file .. => .file
  | registryKey .. => .registryKey
  | directoryObject .. | linkObject .. => .ntObject
  | processToken .. => .kernelObject
  | systemStore .. => .certificateStore
  | heapBlock .. => .heapMemory
  | globalBlock .. => .globalMemory

/-- The native call of an acquisition: none below a key that is no longer usable, and none for a
path that is too long. -/
def request? (processHeap : RawHandle) : Acquisition σ → Option Request
  | file path access share disposition =>
    some (.createFile path.terminated access share disposition backupSemantics)
  | registryKey parent subkey access =>
    if parent.isInvalid || parent.released then none
    else some (.openKey parent.raw (Utf16.encodeTerminated subkey) 0 access)
  | directoryObject path access => (ObjectAttributes.ofPath? path).map (.openDirectoryObject access)
  | linkObject path access => (ObjectAttributes.ofPath? path).map (.openSymbolicLink access)
  | processToken access => some (.openProcessToken Host.currentProcess access)
  | systemStore name => some (.openSystemStore 0 (Utf16.encodeTerminated name))
  | heapBlock bytes => some (.heapAlloc processHeap zeroedHeapBlock bytes)
  | globalBlock bytes => some (.globalAlloc zeroedGlobalBlock bytes)

end Acquisition

theorem ObjectAttributes.ofPath?_eq (path : String) :
    ofPath? path = (CountedName.ofUnits? (Utf16.encode path)).map .named := by
  by_cases hfits : (Utf16.encode path).length ≤ 32767
  · have hbytes : (Utf16.encode path).length * 2 < 0x10000 := by omega
    simp only [ofPath?, CountedName.ofUnits?, if_pos hfits, if_pos hbytes, Option.map_some,
      named]
  · have hbytes : ¬ (Utf16.encode path).length * 2 < 0x10000 := by omega
    simp only [ofPath?, CountedName.ofUnits?, if_neg hfits, if_neg hbytes, Option.map_none]

namespace Host

variable {host : Host σ} {f : ResourceFamily}

theorem adopt_apply (host : Host σ) (f : ResourceFamily) (raw : RawHandle)
    (context : String) (s : σ) : host.adopt f raw context s =
      ⟨if f.sentinel.holds raw then
        .error ((Failure.reported (.win32 (host.lastError s))).withContext context)
      else .ok (host.own f raw), s, []⟩ := by
  unfold adopt
  split
  · rfl
  · rfl

/-- The result is a handle exactly if there is a value that is not the family's sentinel, and then
the handle owns that value. -/
def Opens (host : Host σ) (f : ResourceFamily) (obtained : Option RawHandle)
    (result : Except Failure (Handle σ)) : Prop :=
  ∀ h, result = .ok h ↔
    ∃ raw, obtained = some raw ∧ f.sentinel.holds raw = false ∧ h = host.own f raw

theorem opens_none (failure : Failure) : host.Opens f none (.error failure) := by
  intro h
  constructor
  · intro hok
    cases hok
  · rintro ⟨raw, hnone, -⟩
    cases hnone

theorem opens_some (failure : Failure) (raw : RawHandle) :
    host.Opens f (some raw)
      (if f.sentinel.holds raw then .error failure else .ok (host.own f raw)) := by
  intro h
  by_cases hraw : f.sentinel.holds raw = true
  · rw [if_pos hraw]
    constructor
    · intro hok
      cases hok
    · rintro ⟨opened, hsame, hnot, -⟩
      cases hsame
      rw [hraw] at hnot
      cases hnot
  · rw [if_neg hraw]
    constructor
    · intro hok
      cases hok
      exact ⟨raw, rfl, Bool.eq_false_iff.mpr hraw, rfl⟩
    · rintro ⟨opened, hsame, -, rfl⟩
      cases hsame
      rfl

theorem opens_adopt (host : Host σ) (f : ResourceFamily) (raw : RawHandle) (context : String)
    (s : σ) : (host.adopt f raw context s).state = s ∧
      host.Opens f (some raw) (host.adopt f raw context s).value := by
  rw [adopt_apply]
  exact ⟨rfl, opens_some _ _⟩

def conclude (host : Host σ) (f : ResourceFamily) (raw : RawHandle) (context : String)
    (checked : Except Failure Unit) : Action σ (Except Failure (Handle σ)) := do
  match checked with
  | .error failure => return .error (failure.withContext context)
  | .ok () => return host.adoptChecked f raw context

theorem opens_conclude {checked : Except Failure Unit} {succeeds : Prop} [Decidable succeeds]
    (hchecked : checked = .ok () ↔ succeeds) (host : Host σ) (f : ResourceFamily)
    (raw : RawHandle) (context : String) (s : σ) :
    (host.conclude f raw context checked s).state = s ∧
      host.Opens f (if succeeds then some raw else none)
        (host.conclude f raw context checked s).value := by
  cases checked with
  | error failure =>
    have hfails : ¬ succeeds := by
      rw [← hchecked]
      exact nofun
    rw [if_neg hfails]
    exact ⟨rfl, opens_none _⟩
  | ok u =>
    rw [if_pos (hchecked.mp rfl)]
    exact ⟨rfl, opens_some _ _⟩

theorem checkCode_eq_ok_iff {code : UInt32} : checkCode code = .ok () ↔ code = 0 := by
  by_cases hcode : code = 0 <;> simp [checkCode, hcode]

theorem checkStatus_eq_ok_iff {status : UInt32} :
    checkStatus status = .ok () ↔ status < 0x80000000 := by
  have hbits : (Code.ntStatus status).isSuccess = true ↔ status < 0x80000000 := by
    rw [Code.isSuccess, decide_eq_true_iff, UInt32.lt_iff_toNat_lt]
    rfl
  rw [← hbits, checkStatus]
  cases (Code.ntStatus status).isSuccess <;> simp

theorem openObject_of_none {path : String} (hpath : ObjectAttributes.ofPath? path = none)
    (call : ObjectAttributes → Action σ OpenReply) (s : σ) :
    host.openObject path call s = ⟨.error ⟨.pathTooLong, some path⟩, s, []⟩ := by
  rw [ObjectAttributes.ofPath?_eq, Option.map_eq_none_iff] at hpath
  rw [openObject, hpath]
  rfl

theorem openObject_eq_conclude {path : String} {attributes : ObjectAttributes}
    {call : ObjectAttributes → Action σ OpenReply}
    (hpath : ObjectAttributes.ofPath? path = some attributes) (host : Host σ) :
    host.openObject path call = call attributes >>= fun opened =>
      host.conclude .ntObject opened.handle path (checkStatus opened.status) := by
  rw [ObjectAttributes.ofPath?_eq, Option.map_eq_some_iff] at hpath
  obtain ⟨name, hname, rfl⟩ := hpath
  rw [openObject, hname]
  rfl

theorem openObject_of_some {path : String} {attributes : ObjectAttributes}
    {call : ObjectAttributes → Action σ OpenReply}
    (hpath : ObjectAttributes.ofPath? path = some attributes) (s : σ) :
    (host.openObject path call s).state = (call attributes s).state ∧
      host.Opens .ntObject (if (call attributes s).value.status < 0x80000000 then
          some (call attributes s).value.handle else none)
        (host.openObject path call s).value := by
  rw [openObject_eq_conclude hpath, Action.bind_apply]
  exact opens_conclude checkStatus_eq_ok_iff host .ntObject _ path _

theorem checkFlag_apply (host : Host σ) (ok : Bool) (s : σ) :
    (host.checkFlag ok s).state = s ∧ ((host.checkFlag ok s).value = .ok () ↔ ok = true) := by
  cases ok with
  | true => exact ⟨rfl, fun _ => rfl, fun _ => rfl⟩
  | false => exact ⟨rfl, nofun, nofun⟩

theorem openProcessToken_apply (host : Host σ) (access : UInt32) (s : σ) :
    (host.openProcessToken access s).state =
        (host.perform (.openProcessToken currentProcess access) s).2 ∧
      host.Opens .kernelObject ((Request.openProcessToken currentProcess access).obtained?
          (host.perform (.openProcessToken currentProcess access) s).1)
        (host.openProcessToken access s).value := by
  let opened : TokenOpenReply :=
    (host.perform (.openProcessToken currentProcess access) s).1
  obtain ⟨hkept, hflag⟩ := checkFlag_apply host opened.ok
    (host.perform (.openProcessToken currentProcess access) s).2
  obtain ⟨hstate, hopens⟩ := opens_conclude hflag host .kernelObject opened.handle
    processContext _
  exact ⟨hstate.trans hkept, hopens⟩

theorem openRegistryKey_of_error {parent : Handle σ} {failure : Failure}
    (hborrow : parent.borrow = .error failure) (host : Host σ) (subkey : String) (access : UInt32)
    (s : σ) : host.openRegistryKey parent subkey access s = ⟨.error failure, s, []⟩ := by
  rw [openRegistryKey, hborrow]
  rfl

theorem openRegistryKey_of_borrow {parent : Handle σ} {root : RawHandle}
    (hborrow : parent.borrow = .ok root) (host : Host σ) (subkey : String) (access : UInt32)
    (s : σ) :
    (host.openRegistryKey parent subkey access s).state =
        (host.perform (.openKey root (Utf16.encodeTerminated subkey) 0 access) s).2 ∧
      host.Opens .registryKey
        ((Request.openKey root (Utf16.encodeTerminated subkey) 0 access).obtained?
          (host.perform (.openKey root (Utf16.encodeTerminated subkey) 0 access) s).1)
        (host.openRegistryKey parent subkey access s).value := by
  rw [openRegistryKey, hborrow]
  exact opens_conclude checkCode_eq_ok_iff host .registryKey _ subkey _

theorem asks_openRegistryKey (host : Host ω) (parent : Handle (ω × List Exchange))
    (subkey : String) (access : UInt32) {P : Request → Prop}
    (hP : ∀ root, P (.openKey root (Utf16.encodeTerminated subkey) 0 access)) :
    (host.observed.openRegistryKey parent subkey access).Asks Prod.snd P := by
  intro w
  cases hborrow : parent.borrow with
  | error failure =>
    rw [openRegistryKey_of_error hborrow]
    exact .refl w
  | ok root =>
    rw [(openRegistryKey_of_borrow hborrow host.observed subkey access w).1]
    exact host.asks_ask (hP root) w

end Host

namespace Acquisition

variable {host : Host σ} {a : Acquisition σ} {r : Request}

theorem request?_registryKey (processHeap : RawHandle) (parent : Handle σ) (subkey : String)
    (access : UInt32) :
    (registryKey parent subkey access).request? processHeap =
      match parent.borrow with
      | .ok root => some (.openKey root (Utf16.encodeTerminated subkey) 0 access)
      | .error _ => none := by
  rw [request?, Handle.borrow]
  cases parent.isInvalid <;> cases parent.released <;> rfl

theorem perform_of_none (hr : a.request? host.processHeap = none) (s : σ) :
    ∃ failure, a.perform host s = ⟨.error failure, s, []⟩ := by
  cases a with
  | registryKey parent subkey access =>
    rw [request?_registryKey] at hr
    cases hborrow : parent.borrow with
    | error failure => exact ⟨failure, Host.openRegistryKey_of_error hborrow host subkey access s⟩
    | ok root =>
      rw [hborrow] at hr
      cases hr
  | directoryObject path access =>
    exact ⟨_, Host.openObject_of_none (Option.map_eq_none_iff.mp hr)
      (fun attributes => host.ask (.openDirectoryObject access attributes)) s⟩
  | linkObject path access =>
    exact ⟨_, Host.openObject_of_none (Option.map_eq_none_iff.mp hr)
      (fun attributes => host.ask (.openSymbolicLink access attributes)) s⟩
  | file | processToken | systemStore | heapBlock | globalBlock => cases hr

/-- An acquisition that makes a call makes no other one, and its handle is what the call opened. -/
theorem perform_of_some (hr : a.request? host.processHeap = some r) (s : σ) :
    (a.perform host s).state = (host.perform r s).2 ∧
      host.Opens a.family (r.obtained? (host.perform r s).1) (a.perform host s).value := by
  cases a with
  | file path access share disposition =>
    cases hr
    exact host.opens_adopt .file _ path.text _
  | registryKey parent subkey access =>
    rw [request?_registryKey] at hr
    cases hborrow : parent.borrow with
    | error failure =>
      rw [hborrow] at hr
      cases hr
    | ok root =>
      rw [hborrow] at hr
      cases hr
      exact Host.openRegistryKey_of_borrow hborrow host subkey access s
  | directoryObject path access =>
    obtain ⟨attributes, hpath, rfl⟩ := Option.map_eq_some_iff.mp hr
    exact Host.openObject_of_some hpath s
  | linkObject path access =>
    obtain ⟨attributes, hpath, rfl⟩ := Option.map_eq_some_iff.mp hr
    exact Host.openObject_of_some hpath s
  | processToken access =>
    cases hr
    exact Host.openProcessToken_apply host access s
  | systemStore name =>
    cases hr
    exact host.opens_adopt .certificateStore _ name _
  | heapBlock bytes =>
    cases hr
    exact ⟨rfl, Host.opens_some _ _⟩
  | globalBlock bytes =>
    cases hr
    exact ⟨rfl, Host.opens_some _ _⟩

end Acquisition

end NativeResource

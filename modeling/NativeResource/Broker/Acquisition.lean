import NativeResource.Broker.Family
/-!
Opening and allocating resources. Each acquisition makes one native call and, on success, wraps
its result as a handle that owns it. A result that means "no handle" is never wrapped.
-/
namespace NativeResource

/-- With this flag directories open as files do. -/
def backupSemantics : UInt32 := 0x02000000

def caseInsensitive : UInt32 := 0x40

def zeroedHeapBlock : UInt32 := 8

def zeroedGlobalBlock : UInt32 := 64

/-- A path as the system keeps it. It need not be a text: surrogates may stand alone in it. -/
structure NativePath where
  units : List UInt16
  deriving DecidableEq, Repr

namespace NativePath

def text (path : NativePath) : String := Utf16.decode path.units

def terminated (path : NativePath) : List UInt16 := path.units ++ [0]

instance : Coe String NativePath := ⟨fun s => ⟨Utf16.encode s⟩⟩

end NativePath

inductive RegistryRoot where
  | classesRoot
  | currentUser
  | localMachine
  | users
  | currentConfig
  deriving DecidableEq, Repr

/-- Predefined keys are 32-bit values, extended by their sign. -/
def RegistryRoot.raw (root : RegistryRoot) : RawHandle :=
  let value : UInt32 :=
    match root with
    | classesRoot => 0x80000000
    | currentUser => 0x80000001
    | localMachine => 0x80000002
    | users => 0x80000003
    | currentConfig => 0x80000005
  value.toInt32.toInt64

/-- The units of an object path as a counted parameter, if their bytes can be counted in 16
bits. -/
def CountedName.ofUnits? (w : List UInt16) : Option CountedName :=
  let bytes := w.length * 2
  if bytes < 0x10000 then some ⟨w, UInt16.ofNat bytes, UInt16.ofNat bytes⟩ else none

/-- Attributes for looking an object up by its full path, whatever the case of its letters. -/
def ObjectAttributes.named (name : CountedName) : ObjectAttributes := ⟨48, 0, name, caseInsensitive⟩

namespace Host

def rootKey (host : Host ω) (root : RegistryRoot) : Handle ω :=
  ⟨root.raw, host.family .registryKey, false, false⟩

def own (host : Host ω) (f : ResourceFamily) (raw : RawHandle) : Handle ω :=
  ⟨raw, host.family f, true, false⟩

def adopt (host : Host ω) (f : ResourceFamily) (raw : RawHandle) (context : String) :
    Action ω (Except Failure (Handle ω)) := do
  if f.sentinel.holds raw then
    let code ← host.lastCode
    return .error ((Failure.reported code).withContext context)
  else return .ok (host.own f raw)

def adoptChecked (host : Host ω) (f : ResourceFamily) (raw : RawHandle) (context : String) :
    Except Failure (Handle ω) :=
  if f.sentinel.holds raw then .error ⟨.openedInvalid f.name, some context⟩
  else .ok (host.own f raw)

/-- Wraps an allocation; allocators keep no useful last error. -/
def adoptAllocation (host : Host ω) (f : ResourceFamily) (raw : RawHandle) (bytes : Nat) :
    Except Failure (Handle ω) :=
  if f.sentinel.holds raw then .error ⟨.allocation f.name bytes, none⟩
  else .ok (host.own f raw)

def openFile (host : Host ω) (path : NativePath) (access share disposition : UInt32) :
    Action ω (Except Failure (Handle ω)) := do
  let raw : RawHandle ← host.ask
    (.createFile path.terminated access share disposition backupSemantics)
  host.adopt .file raw path.text

def openRegistryKey (host : Host ω) (parent : Handle ω) (subkey : String) (access : UInt32) :
    Action ω (Except Failure (Handle ω)) := do
  match parent.borrow with
  | .error f => return .error f
  | .ok root =>
    let opened : OpenReply ← host.ask (.openKey root (Utf16.encodeTerminated subkey) 0 access)
    match checkCode opened.status with
    | .error f => return .error (f.withContext subkey)
    | .ok () => return host.adoptChecked .registryKey opened.handle subkey

def openObject (host : Host ω) (path : String)
    (call : ObjectAttributes → Action ω OpenReply) : Action ω (Except Failure (Handle ω)) := do
  match CountedName.ofUnits? (Utf16.encode path) with
  | none => return .error ⟨.pathTooLong, some path⟩
  | some name =>
    let opened ← call (.named name)
    match checkStatus opened.status with
    | .error f => return .error (f.withContext path)
    | .ok () => return host.adoptChecked .ntObject opened.handle path

def openDirectoryObject (host : Host ω) (path : String) (access : UInt32) :
    Action ω (Except Failure (Handle ω)) :=
  host.openObject path fun attributes => host.ask (.openDirectoryObject access attributes)

def openSymbolicLinkObject (host : Host ω) (path : String) (access : UInt32) :
    Action ω (Except Failure (Handle ω)) :=
  host.openObject path fun attributes => host.ask (.openSymbolicLink access attributes)

def processContext : String := "current process"

def openProcessToken (host : Host ω) (access : UInt32) :
    Action ω (Except Failure (Handle ω)) := do
  let opened : TokenOpenReply ← host.ask (.openProcessToken currentProcess access)
  match ← host.checkFlag opened.ok with
  | .error f => return .error (f.withContext processContext)
  | .ok () => return host.adoptChecked .kernelObject opened.handle processContext

def openSystemStore (host : Host ω) (name : String) : Action ω (Except Failure (Handle ω)) := do
  let raw : RawHandle ← host.ask (.openSystemStore 0 (Utf16.encodeTerminated name))
  host.adopt .certificateStore raw name

def allocateHeap (host : Host ω) (bytes : Nat) : Action ω (Except Failure (Handle ω)) := do
  let raw : RawHandle ← host.ask (.heapAlloc host.processHeap zeroedHeapBlock bytes)
  return host.adoptAllocation .heapMemory raw bytes

def allocateGlobal (host : Host ω) (bytes : Nat) : Action ω (Except Failure (Handle ω)) := do
  let raw : RawHandle ← host.ask (.globalAlloc zeroedGlobalBlock bytes)
  return host.adoptAllocation .globalMemory raw bytes

end Host

end NativeResource

import NativeResource.Handle
import NativeResource.Host
/-!
The families of resources and the call that closes each of them.
-/
namespace NativeResource

inductive ResourceFamily where
  | file
  | kernelObject
  | ntObject
  | registryKey
  | certificateStore
  | heapMemory
  | globalMemory
  | localMemory
  deriving DecidableEq, Repr

namespace ResourceFamily

def name : ResourceFamily → String
  | file => "file"
  | kernelObject => "kernel object"
  | ntObject => "NT object"
  | registryKey => "registry key"
  | certificateStore => "certificate store"
  | heapMemory => "heap memory"
  | globalMemory => "global memory"
  | localMemory => "local memory"

def sentinel : ResourceFamily → Sentinel
  | file => .zeroOrMinusOne
  | _ => .zero

end ResourceFamily

namespace Host

/-- A call that tells success by a flag keeps the reason of a failure as the last error. -/
def checkFlag (host : Host ω) (ok : Bool) : Action ω (Except Failure Unit) :=
  if ok then pure (.ok ()) else host.failLast

/-- A call that returns an error code succeeds with zero. -/
def checkCode (code : UInt32) : Except Failure Unit :=
  if code = 0 then .ok () else .error (.reported (.win32 code))

def checkStatus (status : UInt32) : Except Failure Unit :=
  if (Code.ntStatus status).isSuccess then .ok () else .error (.reported (.ntStatus status))

def close (host : Host ω) : ResourceFamily → RawHandle → Action ω (Except Failure Unit)
  | .file, raw | .kernelObject, raw => do host.checkFlag (← host.ask (.closeHandle raw))
  | .ntObject, raw => do return checkStatus (← host.ask (.closeObject raw))
  | .registryKey, raw => do return checkCode (← host.ask (.closeKey raw))
  | .certificateStore, raw => do host.checkFlag (← host.ask (.closeStore raw 0))
  | .heapMemory, raw => do host.checkFlag (← host.ask (.heapFree host.processHeap 0 raw))
  | .globalMemory, raw => do
    let rest : RawHandle ← host.ask (.globalFree raw)
    host.checkFlag (rest == 0)
  | .localMemory, raw => do
    let rest : RawHandle ← host.ask (.localFree raw)
    host.checkFlag (rest == 0)

def family (host : Host ω) (f : ResourceFamily) : Family ω := ⟨f.name, f.sentinel, host.close f⟩

end Host

end NativeResource

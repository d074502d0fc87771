import NativeResource.Effect
import NativeResource.Host.Layout
/-!
The operating system as the library sees it: the calls it can be asked to perform, what each
answers, the last error it keeps, and the memory that its addresses point at.
-/
namespace NativeResource

structure Destination where
  capacity : Nat
  deriving DecidableEq, Repr

def Destination.isNull (d : Destination) : Bool := d.capacity == 0

/-- A counted text as a parameter: its units, and its length and room in bytes. -/
structure CountedName where
  units : List UInt16
  length : UInt16
  maximumLength : UInt16
  deriving DecidableEq, Repr

structure ObjectAttributes where
  size : UInt32
  rootDirectory : RawHandle
  name : CountedName
  attributes : UInt32
  deriving DecidableEq, Repr

/-- A native call with its arguments. Texts are in units; those that end at a null include it. -/
inductive Request where
  | createFile (path : List UInt16) (access share disposition flags : UInt32)
  | closeHandle (handle : RawHandle)
  | finalPathName (file : RawHandle) (into : Destination) (chars flags : UInt32)
  | heapAlloc (heap : RawHandle) (flags : UInt32) (bytes : Nat)
  | heapFree (heap : RawHandle) (flags : UInt32) (block : RawHandle)
  | globalAlloc (flags : UInt32) (bytes : Nat)
  | globalFree (block : RawHandle)
  | localFree (block : RawHandle)
  | openKey (root : RawHandle) (subkey : List UInt16) (options access : UInt32)
  | closeKey (key : RawHandle)
  | queryValue (key : RawHandle) (name : List UInt16) (into : Destination) (size : UInt32)
  | enumerateKey (key : RawHandle) (index : UInt32) (into : Destination) (chars : UInt32)
  | openProcessToken (process : RawHandle) (access : UInt32)
  | tokenInformation (token : RawHandle) (informationClass : UInt32) (into : Destination)
      (length : UInt32)
  | identifierText (identifier : Address)
  | openSystemStore (provider : RawHandle) (name : List UInt16)
  | closeStore (store : RawHandle) (flags : UInt32)
  | closeObject (handle : RawHandle)
  | openDirectoryObject (access : UInt32) (attributes : ObjectAttributes)
  | openSymbolicLink (access : UInt32) (attributes : ObjectAttributes)
  | queryDirectory (directory : RawHandle) (into : Destination) (length : UInt32)
      (single restart : Bool) (context : UInt32)
  | querySymbolicLink (link : RawHandle) (into : Destination) (length maximumLength : UInt16)
  | queryObject (handle : RawHandle) (informationClass : UInt32) (into : Destination)
      (length : UInt32)
  deriving DecidableEq, Repr

structure OpenReply where
  status : UInt32
  handle : RawHandle

structure TokenOpenReply where
  ok : Bool
  handle : RawHandle

/-- The bytes that a path query writes, and the units written or needed; zero is a failure. -/
structure PathReply where
  written : ByteArray
  count : UInt32

structure ValueReply where
  code : UInt32
  type : UInt32
  size : UInt32
  written : ByteArray

structure NameReply where
  code : UInt32
  chars : UInt32
  written : ByteArray

structure TokenReply where
  ok : Bool
  returned : UInt32
  written : ByteArray

structure DirectoryReply where
  status : UInt32
  context : UInt32
  returned : UInt32
  written : ByteArray

/-- The target of a symbolic link, the length of the target, and the length it needs. -/
structure LinkReply where
  status : UInt32
  length : UInt16
  returned : UInt32
  written : ByteArray

structure ObjectReply where
  status : UInt32
  returned : UInt32
  written : ByteArray

structure IdentifierReply where
  ok : Bool
  text : Address

/-- What each call answers. Written bytes go to the start of the destination. -/
def Request.Reply : Request → Type
  | createFile .. | heapAlloc .. | globalAlloc .. | globalFree _ | localFree _
  | openSystemStore .. => RawHandle
  | closeHandle _ | heapFree .. | closeStore .. => Bool
  | closeKey _ | closeObject _ => UInt32
  | openKey .. | openDirectoryObject .. | openSymbolicLink .. => OpenReply
  | openProcessToken .. => TokenOpenReply
  | finalPathName .. => PathReply
  | queryValue .. => ValueReply
  | enumerateKey .. => NameReply
  | tokenInformation .. => TokenReply
  | queryDirectory .. => DirectoryReply
  | querySymbolicLink .. => LinkReply
  | queryObject .. => ObjectReply
  | identifierText _ => IdentifierReply

structure Host (ω : Type) where
  perform : (r : Request) → ω → r.Reply × ω
  lastError : ω → UInt32
  processHeap : RawHandle
  memory : ω → Memory

namespace Host

def ask (host : Host ω) (r : Request) : Action ω r.Reply := Action.quiet (host.perform r)

def lastCode (host : Host ω) : Action ω Code :=
  Action.quiet fun w => (.win32 (host.lastError w), w)

def failLast (host : Host ω) : Action ω (Except Failure α) := do
  return .error (.reported (← host.lastCode))

def currentProcess : RawHandle := -1

end Host

end NativeResource

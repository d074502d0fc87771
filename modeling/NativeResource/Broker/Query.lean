import NativeResource.Broker.Acquisition
import NativeResource.Sizing.Session
/-!
Queries of variable length. Each one borrows a handle, sizes a leased buffer for its native call,
and decodes what the call left there. The size a call is told never exceeds the capacity of the
buffer it writes to.
-/
namespace NativeResource

structure Filling where
  written : ByteArray
  answer : Answer

/-- A call that writes to the start of the buffer and leaves its size alone. -/
def Call.filling (fill : Buffer → Action σ Filling) : Call σ := fun u =>
  let e := fill u.buffer u.state
  ⟨some e.value.answer, ⟨u.buffer.overlay e.value.written, e.state⟩, e.log⟩

def CountedCall.filling (fill : Buffer → Action σ (ByteArray × Except Code UInt32)) :
    CountedCall σ := fun u =>
  let e := fill u.buffer u.state
  ⟨some e.value.2, ⟨u.buffer.overlay e.value.1, e.state⟩, e.log⟩

/-- A size as a 32-bit argument; sizes past the range are passed as its greatest value. -/
def sizeArgument (n : Nat) : UInt32 := UInt32.ofNat (min n 0xFFFFFFFF)

def Buffer.destination (b : Buffer) : Destination := ⟨b.capacity⟩

def Action.onFirst (x : Action σ α) : Action (σ × ν) α := fun s =>
  let e := x s.1
  ⟨e.value, (e.state, s.2), e.log⟩

def Action.note (n : ν) : Action (σ × ν) Unit := Action.quiet fun s => ((), (s.1, n))

def Action.noted : Action (σ × ν) ν := Action.quiet fun s => (s.2, s)

/-- Runs an action with a note beside the state, which is gone afterwards. -/
def Session.withNote (n : ν) (x : Run (Session (σ × ν)) α) : Run (Session σ) α := fun s => do
  let e ← x ⟨s.pool, (s.state, n)⟩
  return ⟨e.value, ⟨e.state.pool, e.state.state.1⟩, e.log⟩

structure Broker (ω : Type) where
  host : Host ω
  allocator : Allocator
  policy : SizingPolicy

namespace Broker

def pathChars : Nat := 260
def valueBytes : Nat := 256
def keyNameBytes : Nat := 512
def directoryBytes : Nat := 4096
def linkTargetBytes : Nat := 512
def objectNameBytes : Nat := 536
def objectTypeBytes : Nat := 16
def tokenUserBytes : Nat := 32

def borrowing (h : Handle ω) (query : RawHandle → Run (Session ω) (Outcome α)) :
    Run (Session ω) (Outcome α) :=
  match h.borrow with
  | .ok raw => query raw
  | .error f => pure (.failed f)

def single (b : Broker ω) (n : Nat) (call : Call σ) (decode : Decoder σ α) :
    Run (Session σ) (Outcome α) :=
  Session.single b.policy b.allocator n call decode

def decodeText : Decoder σ String := fun buffer _ => pure (.returned buffer.text)

/-! ### Files -/

def pathCall (b : Broker ω) (file : RawHandle) : CountedCall ω :=
  .filling fun buffer => do
    let reply : PathReply ← b.host.ask
      (.finalPathName file buffer.destination (sizeArgument buffer.charCapacity) 0)
    if reply.count = 0 then return (reply.written, .error (← b.host.lastCode))
    else return (reply.written, .ok reply.count)

def finalPath (b : Broker ω) (file : Handle ω) : Run (Session ω) (Outcome String) :=
  borrowing file fun raw => Session.counted b.policy b.allocator pathChars (b.pathCall raw)

/-! ### Registry -/

/-- One attempt to read a value, which notes the type it saw. A call that reports success and
more bytes than the buffer holds asks for a larger one. -/
def valueCall (b : Broker ω) (key : RawHandle) (name : List UInt16) : Call (ω × UInt32) :=
  .filling fun buffer => do
    let capacity := sizeArgument buffer.capacity
    let reply : ValueReply ← Action.onFirst
      (b.host.ask (.queryValue key name buffer.destination capacity))
    Action.note reply.type
    let code :=
      if reply.code = Win32.success ∧ capacity < reply.size then Win32.moreData else reply.code
    return ⟨reply.written, ⟨.win32 code, reply.size.toNat⟩⟩

def decodeValue : Decoder (ω × UInt32) RegistryValue := fun buffer _ => do
  return .ofExcept (RegistryValue.decode (← Action.noted) buffer.contentsList)

/-- What a value query makes of its run: a missing value is none, other failures concern the
value's name. -/
def presentValue (name : String) : Outcome RegistryValue → Outcome (Option RegistryValue)
  | .returned value => .returned (some value)
  | .failed f =>
    if f.code = some (.win32 Win32.fileNotFound) then .returned none
    else .failed (f.withContext name)
  | .panicked => .panicked

/-- The value under a name of a key; the empty name is that of the default value. -/
def queryValue (b : Broker ω) (key : Handle ω) (name : String) :
    Run (Session ω) (Outcome (Option RegistryValue)) :=
  borrowing key fun raw => do
    let call := b.valueCall raw (Utf16.encodeTerminated name)
    return presentValue name
      (← Session.withNote (0 : UInt32) (b.single valueBytes call decodeValue))

/-- One attempt to read the name of a subkey. A buffer too small is answered without a size. -/
def keyNameCall (b : Broker ω) (key : RawHandle) (index : UInt32) : Call ω :=
  .filling fun buffer => do
    let reply : NameReply ← b.host.ask
      (.enumerateKey key index buffer.destination (sizeArgument buffer.charCapacity))
    let size := if reply.code = Win32.success then reply.chars.toNat * 2 else 0
    return ⟨reply.written, ⟨.win32 reply.code, size⟩⟩

def subkeyNamesFrom (b : Broker ω) (key : RawHandle) :
    (remaining index : Nat) → List String → Run (Session ω) (Outcome (List String))
  | 0, _, names => pure (.returned names.reverse)
  | remaining + 1, index, names => do
    match ← b.single keyNameBytes (b.keyNameCall key (UInt32.ofNat index)) decodeText with
    | .returned name => b.subkeyNamesFrom key remaining (index + 1) (name :: names)
    | .failed f =>
      if f.code = some (.win32 Win32.noMoreItems) then return .returned names.reverse
      else return .failed f
    | .panicked => return .panicked

def subkeyNames (b : Broker ω) (key : Handle ω) : Run (Session ω) (Outcome (List String)) :=
  borrowing key fun raw => b.subkeyNamesFrom raw 0x100000000 0 []

/-! ### Objects -/

def directoryCall (b : Broker ω) (directory : RawHandle) : Call (ω × UInt32) :=
  .filling fun buffer => do
    let context ← Action.noted
    let reply : DirectoryReply ← Action.onFirst (b.host.ask
      (.queryDirectory directory buffer.destination (sizeArgument buffer.capacity) false false
        context))
    Action.note reply.context
    return ⟨reply.written, ⟨.ntStatus reply.status, reply.returned.toNat⟩⟩

def decodeEntries (b : Broker ω) : Decoder (ω × UInt32) (List DirectoryEntry) := fun buffer _ =>
  Action.quiet fun s => (.returned (DirectoryEntry.readAll (b.host.memory s.1) buffer), s)

def directoryEntries (b : Broker ω) (directory : Handle ω) :
    Run (Session ω) (Outcome (List DirectoryEntry)) :=
  borrowing directory fun raw =>
    Session.withNote (0 : UInt32)
      (Session.enumerate b.policy b.allocator directoryBytes (b.directoryCall raw)
        b.decodeEntries)

/-- The room for a link target: whole units, counted in 16 bits. -/
def linkRoom (capacity : Nat) : UInt16 := UInt16.ofNat (min capacity 0xFFFF / 2 * 2)

def linkCall (b : Broker ω) (link : RawHandle) : Call ω :=
  .filling fun buffer => do
    let reply : LinkReply ← b.host.ask
      (.querySymbolicLink link buffer.destination 0 (linkRoom buffer.capacity))
    let code := Code.ntStatus reply.status
    let size := if code.isSuccess then reply.length.toNat else reply.returned.toNat
    return ⟨reply.written, ⟨code, size⟩⟩

def symbolicLinkTarget (b : Broker ω) (link : Handle ω) : Run (Session ω) (Outcome String) :=
  borrowing link fun raw => b.single linkTargetBytes (b.linkCall raw) decodeText

def nameInformation : UInt32 := 1

def typeInformation : UInt32 := 2

/-- One attempt to read information on an object. On success the reported size only informs. -/
def objectCall (b : Broker ω) (informationClass : UInt32) (handle : RawHandle) : Call ω :=
  .filling fun buffer => do
    let reply : ObjectReply ← b.host.ask
      (.queryObject handle informationClass buffer.destination (sizeArgument buffer.capacity))
    let code := Code.ntStatus reply.status
    let size :=
      if code.isSuccess then min reply.returned.toNat buffer.capacity else reply.returned.toNat
    return ⟨reply.written, ⟨code, size⟩⟩

def decodeLeadingText (b : Broker ω) : Decoder ω String := fun buffer _ =>
  Action.quiet fun w => (.returned (Layout.leadingText (b.host.memory w) buffer), w)

def objectName (b : Broker ω) (h : Handle ω) : Run (Session ω) (Outcome String) :=
  borrowing h fun raw =>
    b.single objectNameBytes (b.objectCall nameInformation raw) b.decodeLeadingText

def objectType (b : Broker ω) (h : Handle ω) : Run (Session ω) (Outcome String) :=
  borrowing h fun raw =>
    b.single objectTypeBytes (b.objectCall typeInformation raw) b.decodeLeadingText

/-! ### Tokens -/

def userInformation : UInt32 := 1

def userCall (b : Broker ω) (token : RawHandle) : Call ω :=
  .filling fun buffer => do
    let reply : TokenReply ← b.host.ask
      (.tokenInformation token userInformation buffer.destination (sizeArgument buffer.capacity))
    let code ← if reply.ok then pure (.win32 Win32.success) else b.host.lastCode
    return ⟨reply.written, ⟨code, reply.returned.toNat⟩⟩

/-- The text of a security identifier. The system allocates it; it is owned while it is read and
freed before it is returned. -/
def identifierText (host : Host ω) (identifier : Address) : Action ω (Except Failure String) := do
  let reply : IdentifierReply ← host.ask (.identifierText identifier)
  if reply.ok then
    let owned := host.own .localMemory reply.text.toInt64
    let text ← Action.quiet fun w => ((host.memory w).text reply.text, w)
    let (freed, released) ← owned.release
    released.drop
    return freed.map fun () => text
  else host.failLast

def decodeUser (b : Broker ω) : Decoder ω String := fun buffer _ => do
  match Layout.tokenUser? buffer with
  | none => return .failed ⟨.shortTokenUser, none⟩
  | some identifier => return .ofExcept (← identifierText b.host identifier)

def tokenUser (b : Broker ω) (token : Handle ω) : Run (Session ω) (Outcome String) :=
  borrowing token fun raw => b.single tokenUserBytes (b.userCall raw) b.decodeUser

end Broker

end NativeResource

import NativeResource.Host
/-!
A host that answers from a script. Each call takes the next prepared answer, or an answer of
nothing but defaults when none is left. What a query writes fills its whole destination,
with zeros after the prepared bytes; texts and identifiers live in blocks of the script's memory.
-/
namespace NativeResource

/-- A counted text to be put into memory: its bytes, if any, and the length its header states. -/
structure PreparedText where
  data : Option ByteArray := none
  length : Option UInt16 := none

structure PreparedAnswer where
  lastError : Option UInt32 := none
  ok : Bool := true
  result : RawHandle := 0
  handle : RawHandle := 0
  code : UInt32 := 0
  status : UInt32 := 0
  written : ByteArray := .empty
  type : UInt32 := 0
  /-- The size in bytes put out in place of the one passed in. -/
  size : Option UInt32 := none
  /-- The size in units put out in place of the one passed in. -/
  chars : Option UInt32 := none
  returned : UInt32 := 0
  context : Option UInt32 := none
  length : Option UInt16 := none
  identifier : Option ByteArray := none
  text : Option ByteArray := none
  object : Option PreparedText := none
  entries : List (PreparedText × PreparedText) := []

structure HostScript where
  answers : List PreparedAnswer := []
  lastError : UInt32 := 0
  blocks : Array ByteArray := #[]
  texts : List Address := []

namespace HostScript

def firstBlock : Address := 0x6E1D5A3C00000000

def blockSpacing : Address := 16

def addressOf (index : Nat) : Address := firstBlock + blockSpacing * UInt64.ofNat index

/-- Only the start of a block is an address. -/
def memory (s : HostScript) : Memory := fun a =>
  let index := ((a - firstBlock) / blockSpacing).toNat
  if a = addressOf index then (s.blocks[index]?).elim [] Bytes.toList else []

def allocate (d : ByteArray) (s : HostScript) : Address × HostScript :=
  (addressOf s.blocks.size, { s with blocks := s.blocks.push d })

/-- Takes the answer for a call; `atEnd` answers when none is left. -/
def next (atEnd : PreparedAnswer) (s : HostScript) : PreparedAnswer × HostScript :=
  let answer := s.answers.headD atEnd
  (answer, { s with
    answers := s.answers.tail
    lastError := answer.lastError.getD s.lastError })

def fillRoom (room : Nat) (d : ByteArray) : ByteArray :=
  d.extract 0 room ++ Bytes.replicate (room - d.size) 0

def wordBytesOf (a : Address) : List UInt8 :=
  (List.range 8).map fun i => (a >>> UInt64.ofNat (8 * i)).toUInt8

def header (length : UInt16) (a : Address) : List UInt8 :=
  Utf16.unitBytes length ++ Utf16.unitBytes length ++ [0, 0, 0, 0] ++ wordBytesOf a

def placeText (t : PreparedText) (s : HostScript) : List UInt8 × HostScript :=
  match t.data with
  | none => (header (t.length.getD 0) 0, s)
  | some d =>
    let placed := s.allocate d
    (header (t.length.getD (UInt16.ofNat d.size)) placed.1, placed.2)

def placeEntries : Nat → List (PreparedText × PreparedText) → HostScript →
    List UInt8 × HostScript
  | 0, _, s => ([], s)
  | _ + 1, [], s => (List.replicate DirectoryEntry.bytes 0, s)
  | room + 1, entry :: rest, s =>
    let name := s.placeText entry.1
    let type := name.2.placeText entry.2
    let others := placeEntries room rest type.2
    (name.1 ++ type.1 ++ others.1, others.2)

def toBlock (data : List UInt8) : ByteArray := ⟨data.toArray⟩

def perform (r : Request) (s : HostScript) : r.Reply × HostScript :=
  match r with
  | .createFile .. | .heapAlloc .. | .globalAlloc .. | .globalFree _ | .localFree _
  | .openSystemStore .. =>
    let (a, s) := s.next {}
    (a.result, s)
  | .closeHandle _ | .heapFree .. | .closeStore .. =>
    let (a, s) := s.next {}
    (a.ok, s)
  | .closeKey _ =>
    let (a, s) := s.next {}
    (a.code, s)
  | .closeObject _ =>
    let (a, s) := s.next {}
    (a.status, s)
  | .openKey .. =>
    let (a, s) := s.next {}
    (⟨a.code, a.handle⟩, s)
  | .openDirectoryObject .. | .openSymbolicLink .. =>
    let (a, s) := s.next {}
    (⟨a.status, a.handle⟩, s)
  | .openProcessToken .. =>
    let (a, s) := s.next {}
    (⟨a.ok, a.handle⟩, s)
  | .finalPathName _ _ chars _ =>
    let (a, s) := s.next {}
    (⟨fillRoom (chars.toNat * 2) a.written, a.result.toUInt64.toUInt32⟩, s)
  | .queryValue _ _ _ size =>
    let (a, s) := s.next {}
    (⟨a.code, a.type, a.size.getD size, fillRoom size.toNat a.written⟩, s)
  | .enumerateKey _ _ _ chars =>
    let (a, s) := s.next { code := Win32.noMoreItems }
    (⟨a.code, a.chars.getD chars, fillRoom (chars.toNat * 2) a.written⟩, s)
  | .tokenInformation _ _ _ length =>
    let (a, s) := s.next {}
    match a.identifier with
    | some d =>
      if length.toNat < Layout.tokenUserBytes then (⟨a.ok, a.returned, .empty⟩, s)
      else
        let placed := s.allocate d
        (⟨a.ok, a.returned, toBlock (wordBytesOf placed.1 ++ List.replicate 8 0)⟩, placed.2)
    | none => (⟨a.ok, a.returned, .empty⟩, s)
  | .identifierText _ =>
    let (a, s) := s.next {}
    match a.text with
    | some d =>
      let placed := s.allocate ((d.push 0).push 0)
      (⟨a.ok, placed.1⟩, { placed.2 with texts := placed.1 :: placed.2.texts })
    | none => (⟨a.ok, 0⟩, s)
  | .queryDirectory _ _ length _ _ context =>
    let (a, s) := s.next {}
    let placed := placeEntries (length.toNat / DirectoryEntry.bytes) a.entries s
    (⟨a.status, a.context.getD context, a.returned, toBlock placed.1⟩, placed.2)
  | .querySymbolicLink _ _ _ maximumLength =>
    let (a, s) := s.next {}
    (⟨a.status, a.length.getD (UInt16.ofNat a.written.size), a.returned,
      fillRoom maximumLength.toNat a.written⟩, s)
  | .queryObject _ _ _ length =>
    let (a, s) := s.next {}
    match a.object with
    | some t =>
      if length.toNat < Layout.countedTextBytes then (⟨a.status, a.returned, .empty⟩, s)
      else
        let placed := s.placeText t
        (⟨a.status, a.returned, toBlock placed.1⟩, placed.2)
    | none => (⟨a.status, a.returned, .empty⟩, s)

def host (processHeap : RawHandle) : Host HostScript where
  perform := perform
  lastError := lastError
  processHeap := processHeap
  memory := memory

end HostScript

end NativeResource

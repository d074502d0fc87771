import NativeResource.Buffer
import NativeResource.Registry.Value
import NativeResource.Text.Utf16
/-!
Structures that the system leaves in a buffer: counted texts, directory entries and token users.
Such a structure holds addresses, and a text is read from the memory it points at.
-/
namespace NativeResource

abbrev Address := UInt64

/-- What an address points at: the bytes from there to the end of their allocation. -/
abbrev Memory := Address → List UInt8

namespace Memory

def counted (m : Memory) (a : Address) (units : Nat) : List UInt16 :=
  (Utf16.ofBytes (m a)).take units

def terminated (m : Memory) (a : Address) : List UInt16 := Utf16.beforeNull (Utf16.ofBytes (m a))

def text (m : Memory) (a : Address) : String :=
  if a = 0 then "" else Utf16.decode (m.terminated a)

end Memory

namespace Layout

def counterAt (d : ByteArray) (i : Nat) : UInt16 :=
  Utf16.ofBytePair (Bytes.get d i) (Bytes.get d (i + 1))

def addressAt (d : ByteArray) (i : Nat) : Address :=
  UInt64.ofNat (RegistryValue.littleEndian ((List.range 8).map fun k => Bytes.get d (i + k)))

/-- A counted text is its length in bytes, its room in bytes and, from byte 8, its address. -/
def countedTextBytes : Nat := 16

def addressOffset : Nat := 8

/-- The counted text whose header starts at an index; a null address or no length is no text. -/
def countedText (m : Memory) (d : ByteArray) (i : Nat) : String :=
  let length := (counterAt d i).toNat
  let address := addressAt d (i + addressOffset)
  if address = 0 ∨ length = 0 then "" else Utf16.decode (m.counted address (length / 2))

end Layout

structure DirectoryEntry where
  name : String
  typeName : String
  deriving DecidableEq, Repr

namespace DirectoryEntry

def bytes : Nat := 2 * Layout.countedTextBytes

/-- The slot that ends a directory has neither a name nor a type. -/
def isEnd (d : ByteArray) (i : Nat) : Bool :=
  Layout.counterAt d (i * bytes) == 0 &&
    Layout.counterAt d (i * bytes + Layout.countedTextBytes) == 0

def read (m : Memory) (d : ByteArray) (i : Nat) : DirectoryEntry :=
  ⟨Layout.countedText m d (i * bytes),
    Layout.countedText m d (i * bytes + Layout.countedTextBytes)⟩

/-- The entries in the slots of a buffer, up to the end slot or the last whole slot. -/
def readAll (m : Memory) (b : Buffer) : List DirectoryEntry :=
  ((List.range (b.capacity / bytes)).takeWhile (!isEnd b.bytes ·)).map (read m b.bytes)

end DirectoryEntry

def Layout.leadingText (m : Memory) (b : Buffer) : String :=
  match b.header? countedTextBytes 8 with
  | some header => countedText m header 0
  | none => ""

/-- The size of a token user: the address of its security identifier and attributes. -/
def Layout.tokenUserBytes : Nat := 16

def Layout.tokenUser? (b : Buffer) : Option Address :=
  (b.header? tokenUserBytes 8).map fun header => addressAt header 0

end NativeResource

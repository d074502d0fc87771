import NativeResource.Buffer
import NativeResource.Text.Utf16
/-!
Buffers read as UTF-16: the allocation is a row of units, low byte first, and the meaningful
units are the whole ones within the length.
-/
namespace NativeResource.Buffer

def unitBytes : Nat := 2

def charCapacity (b : Buffer) : Nat := b.capacity / unitBytes

def charLength (b : Buffer) : Nat := b.length / unitBytes

def unitAt (b : Buffer) (i : Nat) : UInt16 :=
  Utf16.ofBytePair (Bytes.get b.bytes (2 * i)) (Bytes.get b.bytes (2 * i + 1))

def firstUnits (b : Buffer) (n : Nat) : List UInt16 := (List.range n).map b.unitAt

def allUnits (b : Buffer) : List UInt16 := b.firstUnits b.charCapacity

def units (b : Buffer) : List UInt16 := b.firstUnits b.charLength

def text (b : Buffer) : String := Utf16.decode b.units

def Change.reserveChars (alloc : Allocator) (n : Nat) : Change Unit :=
  if n * unitBytes < sizeLimit then Change.reserve alloc (n * unitBytes)
  else throw ⟨.charactersOverflow n, none⟩

def Change.setCharLength (n : Nat) : Change Unit :=
  if n * unitBytes < sizeLimit then Change.setLength (n * unitBytes)
  else throw ⟨.charLengthOverflow n, none⟩

def reserveChars (alloc : Allocator) (n : Nat) (b : Buffer) : Except Failure Buffer :=
  (Change.reserveChars alloc n).result b

def setCharLength (n : Nat) (b : Buffer) : Except Failure Buffer :=
  (Change.setCharLength n).result b

theorem reserveChars_eq (alloc : Allocator) (n : Nat) (b : Buffer) :
    b.reserveChars alloc n =
      if n * unitBytes < sizeLimit then b.reserve alloc (n * unitBytes)
      else .error ⟨.charactersOverflow n, none⟩ := by
  rw [reserveChars, Change.reserveChars]
  split <;> rfl

theorem setCharLength_eq (n : Nat) (b : Buffer) :
    b.setCharLength n =
      if n * unitBytes < sizeLimit then b.setLength (n * unitBytes)
      else .error ⟨.charLengthOverflow n, none⟩ := by
  rw [setCharLength, Change.setCharLength]
  split <;> rfl

/-- The index of the first null unit of the allocation, or its capacity in units. -/
def firstNull (b : Buffer) : Nat := b.allUnits.idxOf 0

theorem length_allUnits (b : Buffer) : b.allUnits.length = b.charCapacity := by
  simp [allUnits, firstUnits]

theorem firstNull_le (b : Buffer) : b.firstNull ≤ b.charCapacity :=
  b.length_allUnits ▸ List.idxOf_le_length

def setLengthToFirstNull (b : Buffer) : Buffer where
  bytes := b.bytes
  length := b.firstNull * unitBytes
  whole_words := b.whole_words
  size_le := b.size_le
  length_le := by
    have h := b.firstNull_le
    simp only [charCapacity, capacity, unitBytes] at h ⊢
    omega

end NativeResource.Buffer

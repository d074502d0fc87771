import NativeResource.Bytes
import NativeResource.Failure
/-!
Growable buffers for native calls. A buffer is one zero-filled allocation of whole 8-byte words,
of which a first part, its length, is meaningful. The allocation only grows, keeps its contents
when it does, and a refused growth changes nothing.
-/
namespace NativeResource

/-- What the memory of the process can provide: whether a block of so many bytes is available. -/
structure Allocator where
  provides : Nat → Bool

def Allocator.largestBlock : Nat := 0x7FFFFFFFFFFFFFF8

def Allocator.fault? (a : Allocator) (bytes : Nat) : Option AllocationFault :=
  if Allocator.largestBlock < bytes then some .tooLarge
  else if a.provides bytes then none
  else some .refused

def sizeLimit : Nat := 0x10000000000000000

def wordBytes : Nat := 8

def roundToWord (n : Nat) : Nat := (n + 7) / wordBytes * wordBytes

theorem roundToWord_mod (n : Nat) : roundToWord n % 8 = 0 := by
  simp [roundToWord, wordBytes]

theorem le_roundToWord (n : Nat) : n ≤ roundToWord n := by
  simp only [roundToWord, wordBytes]
  omega

theorem roundToWord_lt (n : Nat) : roundToWord n < n + 8 := by
  simp only [roundToWord, wordBytes]
  omega

theorem Allocator.le_largestBlock {a : Allocator} {bytes : Nat} (h : a.fault? bytes = none) :
    bytes ≤ largestBlock := by
  unfold fault? at h
  split at h
  · cases h
  · omega

structure Buffer where
  bytes : ByteArray
  length : Nat
  whole_words : bytes.size % 8 = 0
  size_le : bytes.size ≤ Allocator.largestBlock
  length_le : length ≤ bytes.size

namespace Buffer

def empty : Buffer := ⟨.empty, 0, rfl, Nat.zero_le _, Nat.le_refl 0⟩

instance : Inhabited Buffer := ⟨empty⟩

def capacity (b : Buffer) : Nat := b.bytes.size

theorem capacity_le (b : Buffer) : b.capacity ≤ Allocator.largestBlock := b.size_le

def isNull (b : Buffer) : Bool := b.capacity == 0

def contents (b : Buffer) : ByteArray := b.bytes.extract 0 b.length

def contentsList (b : Buffer) : List UInt8 := Bytes.toList b.contents

/-- The buffer with its allocation filled up with zeros to `n` rounded to whole words. -/
def extend (b : Buffer) (n : Nat) (h : roundToWord n ≤ Allocator.largestBlock) : Buffer where
  bytes := b.bytes ++ Bytes.replicate (roundToWord n - b.capacity) 0
  length := b.length
  whole_words := by
    have hb := b.whole_words
    have hn := roundToWord_mod n
    simp only [ByteArray.size_append, Bytes.size_replicate, capacity]
    omega
  size_le := by
    have hb := b.size_le
    simp only [ByteArray.size_append, Bytes.size_replicate, capacity]
    omega
  length_le := by
    have hb := b.length_le
    simp only [ByteArray.size_append]
    omega

/-- A change of a buffer in place. It leaves a buffer also where it fails. -/
abbrev Change := ExceptT Failure (StateM Buffer)

namespace Change

def on (change : Change Unit) (b : Buffer) : Except Failure Unit × Buffer :=
  Id.run (change.run.run b)

def leaves (change : Change Unit) (b : Buffer) : Buffer := (change.on b).2

def result (change : Change Unit) (b : Buffer) : Except Failure Buffer :=
  (change.on b).1.map fun _ => change.leaves b

def reserve (alloc : Allocator) (n : Nat) : Change Unit := do
  let b ← get
  if n ≤ b.capacity then return
  match h : alloc.fault? (roundToWord n) with
  | some fault => throw ⟨.growth n fault, none⟩
  | none => set (b.extend n (Allocator.le_largestBlock h))

def setLength (n : Nat) : Change Unit := do
  let b ← get
  if h : n ≤ b.capacity then set { b with length := n, length_le := h }
  else throw ⟨.lengthPastCapacity n b.capacity, none⟩

end Change

def reserve (alloc : Allocator) (n : Nat) (b : Buffer) : Except Failure Buffer :=
  (Change.reserve alloc n).result b

def new (alloc : Allocator) (n : Nat) : Except Failure Buffer := empty.reserve alloc n

def setLength (n : Nat) (b : Buffer) : Except Failure Buffer := (Change.setLength n).result b

def clear (b : Buffer) : Buffer := { b with length := 0, length_le := Nat.zero_le _ }

def write? (start : Nat) (data : ByteArray) (b : Buffer) : Option Buffer :=
  if h : start + data.size ≤ b.capacity then
    some { b with
      bytes := Bytes.overwrite b.bytes start data
      whole_words := by rw [Bytes.size_overwrite h]; exact b.whole_words
      size_le := by rw [Bytes.size_overwrite h]; exact b.size_le
      length_le := by rw [Bytes.size_overwrite h]; exact b.length_le }
  else none

/-- Writes bytes to the start of the allocation, as many as it holds. -/
def overlay (data : ByteArray) (b : Buffer) : Buffer :=
  (b.write? 0 (data.extract 0 b.capacity)).getD b

/-- The first `size` bytes, read in place as a structure of that size and alignment. -/
def header? (size alignment : Nat) (b : Buffer) : Option ByteArray :=
  if alignment ≤ wordBytes ∧ size ≤ b.capacity then some (b.bytes.extract 0 size) else none

def head (b : Buffer) : ByteArray := b.bytes.extract 0 wordBytes

def debug (b : Buffer) : String :=
  Text.record "GrowableBuffer"
    [("byte_capacity", toString b.capacity), ("logical_length", toString b.length)]

@[simp] theorem capacity_empty : empty.capacity = 0 := rfl

@[simp] theorem capacity_clear (b : Buffer) : b.clear.capacity = b.capacity := rfl

@[simp] theorem length_clear (b : Buffer) : b.clear.length = 0 := rfl

@[simp] theorem bytes_clear (b : Buffer) : b.clear.bytes = b.bytes := rfl

theorem capacity_extend (b : Buffer) (n : Nat) (h : roundToWord n ≤ Allocator.largestBlock) :
    (b.extend n h).capacity = max b.capacity (roundToWord n) := by
  simp only [extend, capacity, ByteArray.size_append, Bytes.size_replicate]
  omega

@[simp] theorem capacity_extend_empty (n : Nat) (h : roundToWord n ≤ Allocator.largestBlock) :
    (empty.extend n h).capacity = roundToWord n := by
  rw [capacity_extend, capacity_empty, Nat.zero_max]

theorem capacity_of_write? {start : Nat} {data : ByteArray} {b c : Buffer}
    (h : b.write? start data = some c) : c.capacity = b.capacity := by
  unfold write? at h
  split at h
  · next fits =>
    cases h
    exact Bytes.size_overwrite fits
  · cases h

@[simp] theorem capacity_overlay (data : ByteArray) (b : Buffer) :
    (b.overlay data).capacity = b.capacity := by
  unfold overlay
  cases h : b.write? 0 (data.extract 0 b.capacity) with
  | none => rfl
  | some c => exact capacity_of_write? h

namespace Change

theorem on_get (f : Buffer → Change Unit) (b : Buffer) :
    (get >>= f : Change Unit).on b = (f b).on b := rfl

theorem on_reserve (alloc : Allocator) (n : Nat) (b : Buffer) :
    (reserve alloc n).on b =
      if n ≤ b.capacity then (.ok (), b)
      else
        match h : alloc.fault? (roundToWord n) with
        | some fault => (.error ⟨.growth n fault, none⟩, b)
        | none => (.ok (), b.extend n (Allocator.le_largestBlock h)) := by
  rw [reserve, on_get]
  split
  · rfl
  · split <;> rfl

theorem on_setLength (n : Nat) (b : Buffer) :
    (setLength n).on b =
      if h : n ≤ b.capacity then (.ok (), { b with length := n, length_le := h })
      else (.error ⟨.lengthPastCapacity n b.capacity, none⟩, b) := by
  rw [setLength, on_get]
  split <;> rfl

end Change

theorem reserve_eq (alloc : Allocator) (n : Nat) (b : Buffer) :
    b.reserve alloc n =
      if n ≤ b.capacity then .ok b
      else
        match h : alloc.fault? (roundToWord n) with
        | some fault => .error ⟨.growth n fault, none⟩
        | none => .ok (b.extend n (Allocator.le_largestBlock h)) := by
  rw [reserve, Change.result, Change.leaves, Change.on_reserve]
  split
  · rfl
  · split <;> rfl

theorem reserve_of_le {alloc : Allocator} {n : Nat} {b : Buffer} (h : n ≤ b.capacity) :
    b.reserve alloc n = .ok b := by
  rw [reserve_eq, if_pos h]

theorem setLength_eq (n : Nat) (b : Buffer) :
    b.setLength n =
      if h : n ≤ b.capacity then .ok { b with length := n, length_le := h }
      else .error ⟨.lengthPastCapacity n b.capacity, none⟩ := by
  rw [setLength, Change.result, Change.leaves, Change.on_setLength]
  split <;> rfl

theorem capacity_of_reserve {alloc : Allocator} {n : Nat} {b c : Buffer}
    (h : b.reserve alloc n = .ok c) : c.capacity = max b.capacity (roundToWord n) ∨
      n ≤ b.capacity ∧ c = b := by
  rw [reserve_eq] at h
  split at h
  · next fits => exact .inr ⟨fits, by cases h; rfl⟩
  · split at h
    · cases h
    · cases h
      exact .inl (capacity_extend b n _)

theorem le_capacity_of_reserve {alloc : Allocator} {n : Nat} {b c : Buffer}
    (h : b.reserve alloc n = .ok c) : b.capacity ≤ c.capacity ∧ n ≤ c.capacity := by
  rcases capacity_of_reserve h with hc | ⟨fits, rfl⟩
  · have := le_roundToWord n
    omega
  · exact ⟨Nat.le_refl _, fits⟩

theorem fault_of_reserve {alloc : Allocator} {n : Nat} {b : Buffer} {f : Failure}
    (h : b.reserve alloc n = .error f) :
    ∃ fault, alloc.fault? (roundToWord n) = some fault ∧ f = ⟨.growth n fault, none⟩ := by
  rw [reserve_eq] at h
  split at h
  · cases h
  · split at h
    · next fault hfault =>
      cases h
      exact ⟨fault, hfault, rfl⟩
    · cases h

theorem setLength_of_le {n : Nat} {b : Buffer} (h : n ≤ b.capacity) :
    ∃ c, b.setLength n = .ok c ∧ c.length = n ∧ c.bytes = b.bytes := by
  rw [setLength_eq, dif_pos h]
  exact ⟨_, rfl, rfl, rfl⟩

theorem setLength_of_lt {n : Nat} {b : Buffer} (h : b.capacity < n) :
    b.setLength n = .error ⟨.lengthPastCapacity n b.capacity, none⟩ := by
  rw [setLength_eq, dif_neg (Nat.not_le.mpr h)]

theorem capacity_of_setLength {n : Nat} {b c : Buffer} (h : b.setLength n = .ok c) :
    c.capacity = b.capacity := by
  rw [setLength_eq] at h
  split at h <;> cases h
  rfl

end Buffer

end NativeResource

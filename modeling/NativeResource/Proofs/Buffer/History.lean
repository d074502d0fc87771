import NativeResource.Buffer.Wide
import NativeResource.Proofs.Text.RoundTrip
/-!
What a buffer holds after any run of calls on it. Every byte of the allocation is the last one that
was written there, or zero, however often the allocation grew in between; the meaningful bytes and
units are exactly those within the length; and a call that fails changes nothing.
-/
namespace NativeResource

namespace Buffer

/-- One call on a buffer. Bytes are written at an index in bytes, units at an index in units. -/
inductive Operation where
  | reserve (alloc : Allocator) (n : Nat)
  | reserveChars (alloc : Allocator) (n : Nat)
  | setLength (n : Nat)
  | setCharLength (n : Nat)
  | clear
  | setLengthToFirstNull
  | write (start : Nat) (data : ByteArray)
  | writeUnits (start : Nat) (w : List UInt16)

namespace Operation

def written? : Operation → Option (Nat × ByteArray)
  | write start data => some (start, data)
  | writeUnits start w => some (unitBytes * start, Utf16.block w)
  | _ => none

def Fits (op : Operation) (b : Buffer) : Prop :=
  ∀ start data, op.written? = some (start, data) → start + data.size ≤ b.capacity

def perform : Operation → Change Unit
  | reserve alloc n => .reserve alloc n
  | reserveChars alloc n => .reserveChars alloc n
  | setLength n => .setLength n
  | setCharLength n => .setCharLength n
  | clear => modify Buffer.clear
  | setLengthToFirstNull => modify Buffer.setLengthToFirstNull
  | write start data => modify fun b => (b.write? start data).getD b
  | writeUnits start w => modify fun b => (b.write? (unitBytes * start) (Utf16.block w)).getD b

def after (op : Operation) (b : Buffer) : Buffer := op.perform.leaves b

def byteAt? (op : Operation) (i : Nat) : Option UInt8 :=
  op.written?.bind fun w =>
    if w.1 ≤ i ∧ i < w.1 + w.2.size then some (Bytes.get w.2 (i - w.1)) else none

end Operation

inductive Execution (start : Buffer) : List Operation → Buffer → Prop where
  | refl : Execution start [] start
  | tail {ops : List Operation} {b : Buffer} {op : Operation} :
      Execution start ops b → op.Fits b → Execution start (ops ++ [op]) (op.after b)

def Made (b : Buffer) : Prop := b = empty ∨ ∃ alloc n, Buffer.new alloc n = .ok b

/-- The last byte written at an index, or zero. -/
def lastWritten (ops : List Operation) (i : Nat) : UInt8 :=
  (ops.filterMap (·.byteAt? i)).getLast?.getD 0

theorem lastWritten_append (ops : List Operation) (op : Operation) (i : Nat) :
    lastWritten (ops ++ [op]) i = (op.byteAt? i).getD (lastWritten ops i) := by
  unfold lastWritten
  rw [List.filterMap_append]
  cases h : op.byteAt? i <;> simp [h]

def Reserves (alloc : Allocator) (n : Nat) (b : Buffer) : Except Failure Buffer → Prop
  | .ok c => c.capacity = max b.capacity (roundToWord n) ∧ c.length = b.length
  | .error f => b.capacity < n ∧ alloc.fault? (roundToWord n) ≠ none ∧ f.kind = .outOfMemory

def SetsLength (n : Nat) (b : Buffer) : Except Failure Buffer → Prop
  | .ok c => n ≤ b.capacity ∧ c.length = n ∧ c.bytes = b.bytes
  | .error f => b.capacity < n ∧ f.kind = .invalidArgument

section Calls

variable {alloc : Allocator} {n start : Nat} {data : ByteArray} {b c : Buffer}

theorem roundToWord_le_of_le (h : n ≤ b.capacity) : roundToWord n ≤ b.capacity := by
  have hwords : b.capacity % 8 = 0 := b.whole_words
  simp only [roundToWord, wordBytes]
  omega

theorem reserve_reserves (alloc : Allocator) (n : Nat) (b : Buffer) :
    Reserves alloc n b (b.reserve alloc n) := by
  rw [reserve_eq]
  split
  · next hfits =>
    have := roundToWord_le_of_le hfits
    refine ⟨?_, rfl⟩
    omega
  · next hlarge =>
    split
    · next fault hfault =>
      refine ⟨Nat.lt_of_not_le hlarge, ?_, rfl⟩
      rw [hfault]
      exact Option.some_ne_none fault
    · next hfault => exact ⟨capacity_extend b n _, rfl⟩

theorem fault_of_reserve_ok (h : b.reserve alloc n = .ok c) (hshort : b.capacity < n) :
    alloc.fault? (roundToWord n) = none := by
  rw [reserve_eq, if_neg (Nat.not_le.mpr hshort)] at h
  split at h
  · cases h
  · assumption

theorem length_of_reserve (h : b.reserve alloc n = .ok c) : c.length = b.length := by
  have hreserves := reserve_reserves alloc n b
  rw [h] at hreserves
  exact hreserves.2

theorem setLength_setsLength (n : Nat) (b : Buffer) : SetsLength n b (b.setLength n) := by
  rw [setLength_eq]
  split
  · next hfits => exact ⟨hfits, rfl, rfl⟩
  · next hlarge => exact ⟨Nat.lt_of_not_le hlarge, rfl⟩

theorem setCharLength_setsLength (n : Nat) (b : Buffer) :
    SetsLength (2 * n) b (b.setCharLength n) := by
  have hmax : b.capacity ≤ Allocator.largestBlock := b.capacity_le
  rw [setCharLength_eq, unitBytes, Nat.mul_comm n 2]
  split
  · exact setLength_setsLength (2 * n) b
  · next hoverflow =>
    refine ⟨?_, rfl⟩
    simp only [Allocator.largestBlock, sizeLimit] at hmax hoverflow
    omega

theorem reserveChars_of_lt (alloc : Allocator) (b : Buffer) (h : 2 * n < sizeLimit) :
    b.reserveChars alloc n = b.reserve alloc (2 * n) := by
  rw [reserveChars_eq, unitBytes, Nat.mul_comm n 2, if_pos h]

theorem reserveChars_of_le (alloc : Allocator) (b : Buffer) (h : sizeLimit ≤ 2 * n) :
    b.reserveChars alloc n = .error ⟨.charactersOverflow n, none⟩ := by
  rw [reserveChars_eq, unitBytes, Nat.mul_comm n 2, if_neg (Nat.not_lt.mpr h)]

theorem write?_eq_some (h : start + data.size ≤ b.capacity) :
    ∃ c, b.write? start data = some c ∧ c.bytes = Bytes.overwrite b.bytes start data ∧
      c.capacity = b.capacity := by
  unfold write?
  rw [dif_pos h]
  exact ⟨_, rfl, rfl, Bytes.size_overwrite h⟩

theorem get_of_reserve (h : b.reserve alloc n = .ok c) (i : Nat) :
    Bytes.get c.bytes i = Bytes.get b.bytes i := by
  rw [reserve_eq] at h
  split at h
  · cases h
    rfl
  · split at h
    · cases h
    · cases h
      simp only [extend, Bytes.get_append, Bytes.get_replicate_zero]
      split
      · rfl
      · next hpast => rw [Bytes.get, dif_neg hpast]

/-- Room of `n` bytes in whole words, with a buffer at the start and zeros after it. -/
structure Extends (n : Nat) (b c : Buffer) : Prop where
  capacity : c.capacity = roundToWord n
  length : c.length = b.length
  kept : ∀ i < b.capacity, Bytes.get c.bytes i = Bytes.get b.bytes i
  blank : ∀ i, b.capacity ≤ i → Bytes.get c.bytes i = 0

theorem extends_of_reserve (h : b.reserve alloc n = .ok c) (hshort : b.capacity ≤ roundToWord n) :
    Extends n b c := by
  have hreserves := reserve_reserves alloc n b
  rw [h] at hreserves
  refine ⟨hreserves.1.trans (Nat.max_eq_right hshort), hreserves.2, ?_, ?_⟩
  · intro i _
    exact get_of_reserve h i
  · intro i hi
    have hpast : ¬ i < b.bytes.size := Nat.not_lt.mpr hi
    rw [get_of_reserve h i, Bytes.get, dif_neg hpast]

end Calls

namespace Change

/-- A change that fails leaves the buffer as it was. -/
def Atomic (change : Change Unit) : Prop := ∀ b f c, change.on b = (.error f, c) → c = b

theorem atomic_reserve (alloc : Allocator) (n : Nat) : Atomic (reserve alloc n) := by
  intro b f c h
  rw [on_reserve] at h
  split at h
  · cases h
  · split at h
    · cases h
      rfl
    · cases h

theorem atomic_setLength (n : Nat) : Atomic (setLength n) := by
  intro b f c h
  rw [on_setLength] at h
  split at h
  · cases h
  · cases h
    rfl

theorem atomic_throw (f : Failure) : Atomic (throw f) := by
  intro b g c h
  cases h
  rfl

theorem atomic_modify (f : Buffer → Buffer) : Atomic (modify f) := by
  intro b g c h
  cases h

theorem atomic_reserveChars (alloc : Allocator) (n : Nat) : Atomic (reserveChars alloc n) := by
  unfold reserveChars
  split
  · exact atomic_reserve alloc _
  · exact atomic_throw _

theorem atomic_setCharLength (n : Nat) : Atomic (setCharLength n) := by
  unfold setCharLength
  split
  · exact atomic_setLength _
  · exact atomic_throw _

variable {change : Change Unit} {b c : Buffer} {f : Failure}

theorem leaves_of_ok (h : change.result b = .ok c) : change.leaves b = c := by
  rw [result] at h
  cases hanswer : (change.on b).1 with
  | ok u =>
    rw [hanswer] at h
    cases h
    rfl
  | error f =>
    rw [hanswer] at h
    cases h

theorem Atomic.leaves_of_error (hatomic : Atomic change) (h : change.result b = .error f) :
    change.leaves b = b := by
  rw [result] at h
  cases hanswer : (change.on b).1 with
  | ok u =>
    rw [hanswer] at h
    cases h
  | error g => exact hatomic b g _ (Prod.ext hanswer rfl)

end Change

namespace Operation

variable {op : Operation} {b c : Buffer}

theorem atomic_perform (op : Operation) : op.perform.Atomic := by
  cases op with
  | reserve alloc n => exact Change.atomic_reserve alloc n
  | reserveChars alloc n => exact Change.atomic_reserveChars alloc n
  | setLength n => exact Change.atomic_setLength n
  | setCharLength n => exact Change.atomic_setCharLength n
  | clear | setLengthToFirstNull | write | writeUnits => exact Change.atomic_modify _

theorem get_of_perform (hnone : op.written? = none) (h : op.perform.result b = .ok c) (i : Nat) :
    Bytes.get c.bytes i = Bytes.get b.bytes i := by
  cases op with
  | reserve alloc n => exact get_of_reserve h i
  | reserveChars alloc n =>
    rw [perform, ← Buffer.reserveChars, reserveChars_eq] at h
    split at h
    · exact get_of_reserve h i
    · cases h
  | setLength n =>
    have hset := setLength_setsLength n b
    rw [perform] at h
    rw [Buffer.setLength, h] at hset
    rw [hset.2.2]
  | setCharLength n =>
    have hset := setCharLength_setsLength n b
    rw [perform] at h
    rw [Buffer.setCharLength, h] at hset
    rw [hset.2.2]
  | clear | setLengthToFirstNull =>
    cases h
    rfl
  | write | writeUnits => cases hnone

theorem bytes_after_of_written {start : Nat} {data : ByteArray}
    (hw : op.written? = some (start, data)) (hfits : op.Fits b) :
    (op.after b).bytes = Bytes.overwrite b.bytes start data ∧
      (op.after b).capacity = b.capacity := by
  obtain ⟨c, hc, hbytes, hcapacity⟩ := write?_eq_some (hfits start data hw)
  have hafter : op.after b = c := by
    cases op with
    | write | writeUnits =>
      cases hw
      change (b.write? _ _).getD b = c
      rw [hc, Option.getD_some]
    | _ => cases hw
  rw [hafter]
  exact ⟨hbytes, hcapacity⟩

theorem get_after (hfits : op.Fits b) (i : Nat) :
    Bytes.get (op.after b).bytes i = (op.byteAt? i).getD (Bytes.get b.bytes i) := by
  cases hw : op.written? with
  | none =>
    have hbyte : op.byteAt? i = none := by rw [byteAt?, hw]; rfl
    rw [hbyte, Option.getD_none]
    cases hp : op.perform.result b with
    | ok c =>
      rw [after, Change.leaves_of_ok hp]
      exact get_of_perform hw hp i
    | error f => rw [after, op.atomic_perform.leaves_of_error hp]
  | some w =>
    obtain ⟨start, data⟩ := w
    rw [(bytes_after_of_written hw hfits).1, Bytes.get_overwrite (hfits start data hw),
      byteAt?, hw, Option.bind_some]
    split <;> rfl

theorem capacity_le_after (hfits : op.Fits b) : b.capacity ≤ (op.after b).capacity := by
  cases hw : op.written? with
  | some w => exact Nat.le_of_eq (bytes_after_of_written hw hfits).2.symm
  | none =>
    cases hp : op.perform.result b with
    | error f => exact Nat.le_of_eq (by rw [after, op.atomic_perform.leaves_of_error hp])
    | ok c =>
      rw [after, Change.leaves_of_ok hp]
      cases op with
      | reserve alloc n => exact (le_capacity_of_reserve hp).1
      | reserveChars alloc n =>
        rw [perform, ← Buffer.reserveChars, reserveChars_eq] at hp
        split at hp
        · exact (le_capacity_of_reserve hp).1
        · cases hp
      | setLength n => exact Nat.le_of_eq (capacity_of_setLength hp).symm
      | setCharLength n =>
        rw [perform, ← Buffer.setCharLength, setCharLength_eq] at hp
        split at hp
        · exact Nat.le_of_eq (capacity_of_setLength hp).symm
        · cases hp
      | clear | setLengthToFirstNull =>
        cases hp
        exact Nat.le_refl _
      | write | writeUnits => cases hw

end Operation

section Runs

variable {start b c : Buffer} {ops more : List Operation}

theorem get_of_made (h : Made b) (i : Nat) : Bytes.get b.bytes i = 0 := by
  rcases h with rfl | ⟨alloc, n, h⟩
  · rfl
  · rw [get_of_reserve h i]
    rfl

/-- Reading anywhere finds the last write. -/
theorem Execution.get_eq (h : Execution start ops b) (hmade : Made start) (i : Nat) :
    Bytes.get b.bytes i = lastWritten ops i := by
  induction h with
  | refl => exact get_of_made hmade i
  | tail _ hfits ih => rw [Operation.get_after hfits, ih, lastWritten_append]

theorem Execution.capacity_le (h : Execution start ops b) : start.capacity ≤ b.capacity := by
  induction h with
  | refl => exact Nat.le_refl _
  | tail _ hfits ih => exact Nat.le_trans ih (Operation.capacity_le_after hfits)

end Runs

/-- What a run of calls leaves of a buffer, in bytes and in units. -/
structure Recorded (ops : List Operation) (b : Buffer) : Prop where
  whole_words : b.capacity % 8 = 0
  length_le : b.length ≤ b.capacity
  contents_size : b.contents.size = b.length
  contents_get : ∀ i < b.length, Bytes.get b.contents i = Bytes.get b.bytes i
  units_length : b.units.length = b.length / 2
  units_eq : b.units = b.allUnits.take (b.length / 2)
  written : ∀ i < b.capacity, Bytes.get b.bytes i = lastWritten ops i

/-- How each call ends on a buffer, and that a call that fails leaves it alone. -/
structure Obeys (b : Buffer) : Prop where
  reserve : ∀ alloc n, Reserves alloc n b (b.reserve alloc n)
  reserveChars : ∀ alloc n, 2 * n < sizeLimit → b.reserveChars alloc n = b.reserve alloc (2 * n)
  reserveChars_overflow : ∀ alloc n, sizeLimit ≤ 2 * n →
    ∃ f, b.reserveChars alloc n = .error f ∧ f.kind = .outOfMemory
  setLength : ∀ n, SetsLength n b (b.setLength n)
  setCharLength : ∀ n, SetsLength (2 * n) b (b.setCharLength n)
  unit_written : ∀ start w, (Operation.writeUnits start w).Fits b → ∀ k u, w[k]? = some u →
    ((Operation.writeUnits start w).after b).unitAt (start + k) = u
  failed : ∀ (op : Operation) f c, op.perform.on b = (.error f, c) → c = b

theorem contents_get (b : Buffer) {i : Nat} (h : i < b.length) :
    Bytes.get b.contents i = Bytes.get b.bytes i := by
  have hle := b.length_le
  rw [Bytes.get_eq, Bytes.get_eq, contents, ByteArray.data_extract, Array.getElem?_extract,
    ByteArray.size_data, if_pos (by omega), Nat.zero_add]

theorem units_eq_take (b : Buffer) : b.units = b.allUnits.take b.charLength := by
  have hle : b.charLength ≤ b.charCapacity := Nat.div_le_div_right b.length_le
  rw [units, allUnits, firstUnits, firstUnits, ← List.map_take, List.take_range,
    Nat.min_eq_left hle]

theorem Execution.recorded {start b : Buffer} {ops : List Operation} (h : Execution start ops b)
    (hmade : Made start) : Recorded ops b := by
  refine ⟨b.whole_words, b.length_le, ?_, fun _ => b.contents_get, ?_, b.units_eq_take, ?_⟩
  · have hle := b.length_le
    simp only [contents, ByteArray.size_extract]
    omega
  · simp [units, firstUnits, charLength, unitBytes]
  · intro i _
    exact h.get_eq hmade i

theorem unitAt_after_writeUnits {start : Nat} {w : List UInt16} {b : Buffer}
    (hfits : (Operation.writeUnits start w).Fits b) {k : Nat} {u : UInt16} (hu : w[k]? = some u) :
    ((Operation.writeUnits start w).after b).unitAt (start + k) = u := by
  have hk : k < w.length := (List.getElem?_eq_some_iff.mp hu).1
  obtain ⟨hlow, hhigh⟩ := Utf16.getElem?_toBytes w k
  have hread : ∀ j < 2, (Operation.writeUnits start w).byteAt? (2 * (start + k) + j) =
      some (Bytes.get (Utf16.block w) (2 * k + j)) := by
    intro j hj
    have hindex : 2 * (start + k) + j - 2 * start = 2 * k + j := by omega
    simp only [Operation.byteAt?, Operation.written?, Option.bind_some, unitBytes,
      Utf16.size_block, hindex]
    exact if_pos (by omega)
  have hfirst := hread 0 (by omega)
  have hsecond := hread 1 (by omega)
  rw [Nat.add_zero, Nat.add_zero] at hfirst
  rw [unitAt, Operation.get_after hfits, Operation.get_after hfits, hfirst, hsecond]
  simp only [Option.getD_some, Bytes.get_eq, Utf16.block, List.getElem?_toArray, hlow, hhigh, hu,
    Option.map_some]
  exact Utf16.ofBytePair_unitBytes u

theorem obeys (b : Buffer) : Obeys b := by
  refine ⟨fun alloc n => reserve_reserves alloc n b, ?_, ?_, fun n => setLength_setsLength n b,
    fun n => setCharLength_setsLength n b, ?_, fun op => op.atomic_perform b⟩
  · intro alloc n h
    exact reserveChars_of_lt alloc b h
  · intro alloc n h
    exact ⟨_, reserveChars_of_le alloc b h, rfl⟩
  · intro start w hfits k u hu
    exact unitAt_after_writeUnits hfits hu

/-- However a buffer was used since it was made, it holds what was last written to it, shows what
is within its length, has not shrunk, and answers the next call as its capacity says. -/
theorem representation_kept_over_every_run {start b : Buffer} {ops : List Operation}
    (hmade : Made start) (hrun : Execution start ops b) :
    Recorded ops b ∧ Obeys b ∧ ∀ more c, Execution b more c → b.capacity ≤ c.capacity := by
  refine ⟨hrun.recorded hmade, b.obeys, ?_⟩
  intro more c hmore
  exact hmore.capacity_le

theorem representation_kept_over_every_run_growing :
    Made (empty.extend 8 (by decide)) ∧
      ∃ b, Execution (empty.extend 8 (by decide))
          [.writeUnits 1 [0x41], .reserve ⟨fun _ => true⟩ 20] b ∧
        Bytes.get b.bytes 2 = 0x41 ∧ Bytes.get b.bytes 3 = 0 := by
  have hmade : Made (empty.extend 8 (by decide)) := .inr ⟨⟨fun _ => true⟩, 8, rfl⟩
  have hcapacity : (empty.extend 8 (by decide)).capacity = 8 := by
    rw [capacity_extend]
    rfl
  have hfits : (Operation.writeUnits 1 [0x41]).Fits (empty.extend 8 (by decide)) := by
    intro start data hw
    cases hw
    rw [hcapacity]
    decide
  have hreserve : (Operation.reserve ⟨fun _ => true⟩ 20).Fits
      ((Operation.writeUnits 1 [0x41]).after (empty.extend 8 (by decide))) := nofun
  have hrun := (Execution.refl.tail hfits).tail hreserve
  obtain ⟨hrecorded, -, -⟩ := representation_kept_over_every_run hmade hrun
  have hroom := hcapacity ▸ hrun.capacity_le
  refine ⟨hmade, _, hrun, ?_, ?_⟩
  · rw [hrecorded.written 2 (by omega)]
    rfl
  · rw [hrecorded.written 3 (by omega)]
    rfl

end Buffer

end NativeResource

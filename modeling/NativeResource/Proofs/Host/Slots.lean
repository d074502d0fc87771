import NativeResource.Host.Layout
import NativeResource.Proofs.Buffer.Reading
/-!
The slots of a directory in a buffer. A slot is two counted texts, each a length, eight bytes
further an address; it is read for its lengths first, and the first slot without any ends the
directory. Nothing behind that slot, or behind the last whole one, is looked at.
-/
namespace NativeResource

/-- The number in so many bytes from an index on, the lowest byte first. -/
def Bytes.numberAt (d : ByteArray) (i width : Nat) : Nat :=
  RegistryValue.littleEndian ((List.range width).map fun k => get d (i + k))

structure CountedText where
  length : Nat
  address : Address

namespace CountedText

/-- The header at an index: the length, the room, six bytes in all that are not read, and the
address. -/
def headerAt (d : ByteArray) (i : Nat) : CountedText :=
  ⟨Bytes.numberAt d i 2, UInt64.ofNat (Bytes.numberAt d (i + 8) 8)⟩

/-- The decoded units that the header points at, as many as its length has; none if it has no
address or no length. -/
def text (m : Memory) (t : CountedText) : String :=
  if t.address = 0 ∨ t.length = 0 then ""
  else Utf16.decode ((Utf16.ofBytes (m t.address)).take (t.length / 2))

end CountedText

structure Slot where
  name : CountedText
  typeName : CountedText

namespace Slot

def inBytes (d : ByteArray) (i : Nat) : Slot :=
  ⟨.headerAt d (32 * i), .headerAt d (32 * i + 16)⟩

def IsBlank (s : Slot) : Prop := s.name.length = 0 ∧ s.typeName.length = 0

instance (s : Slot) : Decidable s.IsBlank := inferInstanceAs (Decidable (_ ∧ _))

def entry (m : Memory) (s : Slot) : DirectoryEntry := ⟨s.name.text m, s.typeName.text m⟩

end Slot

namespace Layout

theorem toNat_counterAt (d : ByteArray) (i : Nat) :
    (counterAt d i).toNat = Bytes.numberAt d i 2 := by
  have hlow : (Bytes.get d i).toNat < 256 := (Bytes.get d i).toNat_lt
  have hhigh : (Bytes.get d (i + 1)).toNat < 256 := (Bytes.get d (i + 1)).toNat_lt
  have hnumber : Bytes.numberAt d i 2 =
      (Bytes.get d i).toNat + 256 * ((Bytes.get d (i + 1)).toNat + 256 * 0) := rfl
  rw [counterAt, Utf16.ofBytePair, UInt16.toNat_ofNat', hnumber]
  omega

theorem counterAt_eq_zero_iff (d : ByteArray) (i : Nat) :
    counterAt d i = 0 ↔ Bytes.numberAt d i 2 = 0 := by
  rw [← toNat_counterAt, ← UInt16.toNat_inj]
  rfl

theorem countedText_eq (m : Memory) (d : ByteArray) (i : Nat) :
    countedText m d i = (CountedText.headerAt d i).text m := by
  simp only [countedText, toNat_counterAt]
  rfl

end Layout

def Buffer.slotCount (b : Buffer) : Nat := b.capacity / 32

/-- So many slots are not blank, and the next one is, or there is none. -/
structure Buffer.HoldsSlots (b : Buffer) (k : Nat) : Prop where
  le_slotCount : k ≤ b.slotCount
  filled : ∀ i < k, ¬ (Slot.inBytes b.bytes i).IsBlank
  ends : k = b.slotCount ∨ (Slot.inBytes b.bytes k).IsBlank

/-- Two buffers have the same slots up to that of an index, as far as there are any. -/
structure Buffer.SameSlots (b c : Buffer) (k : Nat) : Prop where
  slotCount : min b.slotCount (k + 1) = min c.slotCount (k + 1)
  bytes : ∀ j < 32 * min b.slotCount (k + 1), Bytes.get b.bytes j = Bytes.get c.bytes j

namespace DirectoryEntry

variable {m : Memory} {b c : Buffer} {k : Nat}

theorem isEnd_eq_true_iff (b : Buffer) (i : Nat) :
    isEnd b.bytes i = true ↔ (Slot.inBytes b.bytes i).IsBlank := by
  have hname : i * bytes = 32 * i := Nat.mul_comm i 32
  rw [isEnd, Bool.and_eq_true, beq_iff_eq, beq_iff_eq, Layout.counterAt_eq_zero_iff,
    Layout.counterAt_eq_zero_iff, hname]
  rfl

theorem read_eq_entry (m : Memory) (b : Buffer) (i : Nat) :
    read m b.bytes i = (Slot.inBytes b.bytes i).entry m := by
  have hname : i * bytes = 32 * i := Nat.mul_comm i 32
  rw [read, Layout.countedText_eq, Layout.countedText_eq, hname]
  rfl

theorem takeWhile_range {n k : Nat} {p : Nat → Bool} (hle : k ≤ n)
    (hall : ∀ i < k, p i = true) (hstop : k = n ∨ p k = false) :
    (List.range n).takeWhile p = List.range k := by
  obtain ⟨d, rfl⟩ := Nat.exists_eq_add_of_le hle
  rw [List.range_add, List.takeWhile_append_of_pos fun i hi => hall i (List.mem_range.mp hi)]
  cases d with
  | zero => exact List.append_nil _
  | succ d =>
    have hk : p k = false := hstop.resolve_left (by omega)
    rw [List.range_succ_eq_map, List.map_cons, Nat.add_zero,
      List.takeWhile_cons_of_neg (Bool.eq_false_iff.mp hk), List.append_nil]

theorem readAll_of_holdsSlots (h : b.HoldsSlots k) :
    readAll m b = (List.range k).map fun i => (Slot.inBytes b.bytes i).entry m := by
  have hread : read m b.bytes = fun i => (Slot.inBytes b.bytes i).entry m :=
    funext (read_eq_entry m b)
  rw [readAll, hread]
  refine congrArg (List.map _) (takeWhile_range h.le_slotCount ?_ ?_)
  · intro i hi
    rw [Bool.not_eq_true', Bool.eq_false_iff, ne_eq, isEnd_eq_true_iff]
    exact h.filled i hi
  · refine h.ends.imp id fun hblank => ?_
    rw [Bool.not_eq_false', isEnd_eq_true_iff]
    exact hblank

theorem numberAt_congr {d e : ByteArray} (i width : Nat)
    (h : ∀ j < i + width, Bytes.get d j = Bytes.get e j) :
    Bytes.numberAt d i width = Bytes.numberAt e i width := by
  refine congrArg RegistryValue.littleEndian (List.map_congr_left ?_)
  intro j hj
  have hlt : j < width := List.mem_range.mp hj
  exact h (i + j) (by omega)

theorem inBytes_congr {d e : ByteArray} {i : Nat}
    (h : ∀ j < 32 * (i + 1), Bytes.get d j = Bytes.get e j) :
    Slot.inBytes d i = Slot.inBytes e i := by
  have hheader : ∀ start, start + 16 ≤ 32 * (i + 1) →
      CountedText.headerAt d start = CountedText.headerAt e start := by
    intro start hstart
    have hlength := numberAt_congr start 2 fun j hj => h j (by omega)
    have haddress := numberAt_congr (start + 8) 8 fun j hj => h j (by omega)
    rw [CountedText.headerAt, CountedText.headerAt, hlength, haddress]
  rw [Slot.inBytes, Slot.inBytes, hheader (32 * i) (by omega), hheader (32 * i + 16) (by omega)]

theorem inBytes_of_sameSlots (hsame : b.SameSlots c k) {i : Nat}
    (hi : i < min b.slotCount (k + 1)) : Slot.inBytes b.bytes i = Slot.inBytes c.bytes i :=
  inBytes_congr fun j hj => hsame.bytes j (by omega)

theorem holdsSlots_of_sameSlots (h : b.HoldsSlots k) (hsame : b.SameSlots c k) :
    c.HoldsSlots k := by
  have hcount := hsame.slotCount
  have hle := h.le_slotCount
  refine ⟨by omega, ?_, ?_⟩
  · intro i hi
    rw [← inBytes_of_sameSlots hsame (by omega)]
    exact h.filled i hi
  · rcases h.ends with hall | hblank
    · exact .inl (by omega)
    · -- Without a slot of this index in either buffer there is no blank one to find.
      by_cases hlast : k = b.slotCount
      · exact .inl (by omega)
      · rw [← inBytes_of_sameSlots hsame (by omega)]
        exact .inr hblank

theorem readAll_of_sameSlots (h : b.HoldsSlots k) (hsame : b.SameSlots c k) :
    readAll m c = readAll m b := by
  have hle := h.le_slotCount
  rw [readAll_of_holdsSlots h, readAll_of_holdsSlots (holdsSlots_of_sameSlots h hsame)]
  refine List.map_congr_left fun i hi => ?_
  have hlt : i < k := List.mem_range.mp hi
  rw [inBytes_of_sameSlots hsame (by omega)]

/-- Slots that are written with their end are read back, whatever the buffer held before. -/
theorem readAll_overlay {data : ByteArray} (hroom : data.size ≤ b.capacity)
    (hsize : 32 * (k + 1) ≤ data.size) (hfilled : ∀ i < k, ¬ (Slot.inBytes data i).IsBlank)
    (hend : (Slot.inBytes data k).IsBlank) :
    readAll m (b.overlay data) = (List.range k).map fun i => (Slot.inBytes data i).entry m := by
  have hwritten : (b.overlay data).bytes.extract 0 data.size = data :=
    Buffer.extract_overlay_of_extract ByteArray.extract_zero_size hroom
  have hslot : ∀ i ≤ k, Slot.inBytes (b.overlay data).bytes i = Slot.inBytes data i := by
    intro i hi
    apply inBytes_congr
    intro j hj
    have hget := Bytes.get_extract_zero (b.overlay data).bytes (n := data.size) (i := j) (by omega)
    rw [hwritten] at hget
    exact hget.symm
  have hslots : (b.overlay data).HoldsSlots k := by
    refine ⟨?_, ?_, .inr ?_⟩
    · rw [Buffer.slotCount, Buffer.capacity_overlay]
      omega
    · intro i hi
      rw [hslot i (Nat.le_of_lt hi)]
      exact hfilled i hi
    · rw [hslot k (Nat.le_refl k)]
      exact hend
  rw [readAll_of_holdsSlots hslots]
  refine List.map_congr_left fun i hi => ?_
  rw [hslot i (Nat.le_of_lt (List.mem_range.mp hi))]

end DirectoryEntry

end NativeResource

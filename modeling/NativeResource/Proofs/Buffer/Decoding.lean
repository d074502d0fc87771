import NativeResource.Proofs.Buffer.Reading
import NativeResource.Proofs.Registry.Storage
/-!
A buffer decoded as registry data. The units of a buffer are read in place, registry data is put
together from pairs of bytes; for lists both come to the same, and so they do for texts, once the
length has been set to the first null or as long as no null is within it.
-/
namespace NativeResource

namespace Utf16

theorem beforeNull_eq_take (w : List UInt16) : beforeNull w = w.take (w.idxOf 0) := by
  have hstops : (fun u : UInt16 => !decide (u ≠ 0)) = (· == 0) := by
    funext u
    by_cases h : u = 0 <;> simp [h]
  rw [beforeNull, List.takeWhile_eq_take_findIdx_not, List.idxOf, hstops]

theorem zero_notMem_beforeNull (w : List UInt16) : 0 ∉ beforeNull w := by
  intro hmem
  have hne := List.all_eq_true.mp List.all_takeWhile 0 hmem
  simp at hne

end Utf16

namespace Buffer

/-- The index of the first null unit of the allocation, or of its end if it has none. -/
structure IsFirstNull (b : Buffer) (n : Nat) : Prop where
  before : ∀ i < n, b.unitAt i ≠ 0
  stops : (n < b.charCapacity ∧ b.unitAt n = 0) ∨ n = b.charCapacity

variable (b : Buffer)

theorem allUnits_eq_ofBytes : b.allUnits = Utf16.ofBytes (Bytes.toList b.bytes) := by
  rw [Utf16.ofBytes_eq_map, Bytes.toList, Array.length_toList, allUnits, firstUnits]
  apply List.map_congr_left
  intro i _
  simp only [unitAt, Bytes.get_eq, Array.getElem?_toList]

theorem getElem_allUnits {i : Nat} (h : i < b.allUnits.length) : b.allUnits[i] = b.unitAt i := by
  simp only [allUnits, firstUnits, List.getElem_map, List.getElem_range]

theorem isFirstNull_firstNull : b.IsFirstNull b.firstNull := by
  constructor
  · intro i hi hzero
    have hroom : i < b.allUnits.length := Nat.lt_of_lt_of_le hi List.idxOf_le_length
    have hnot := List.not_of_lt_findIdx hi
    rw [getElem_allUnits b hroom, hzero] at hnot
    cases hnot
  · by_cases hnull : 0 ∈ b.allUnits
    · have hroom : b.firstNull < b.allUnits.length := List.idxOf_lt_length_of_mem hnull
      have hzero : b.allUnits[b.firstNull] = 0 := List.getElem_idxOf hroom
      rw [getElem_allUnits b hroom] at hzero
      exact .inl ⟨b.length_allUnits ▸ hroom, hzero⟩
    · right
      rw [firstNull, List.idxOf_eq_length hnull, length_allUnits]

theorem charLength_setLengthToFirstNull : b.setLengthToFirstNull.charLength = b.firstNull :=
  Nat.mul_div_cancel b.firstNull Nat.zero_lt_two

theorem units_setLengthToFirstNull :
    b.setLengthToFirstNull.units = Utf16.beforeNull b.allUnits := by
  rw [units_eq_take, charLength_setLengthToFirstNull, Utf16.beforeNull_eq_take]
  rfl

theorem textOf_allocation :
    RegistryValue.textOf (Bytes.toList b.bytes) = b.setLengthToFirstNull.text := by
  rw [RegistryValue.textOf, ← allUnits_eq_ofBytes, text, units_setLengthToFirstNull]

theorem textOf_contents {b : Buffer} (h : 0 ∉ b.units) :
    RegistryValue.textOf b.contentsList = b.text := by
  rw [RegistryValue.textOf, ← units_eq_ofBytes, Utf16.beforeNull_of_notMem h, text]

/-- Reading the units of a buffer in place and decoding its bytes as registry data agree: on its
contents as a list whatever their length, on its whole allocation as a text once the length is set
to the first null, and on its contents as a text if they hold no null. -/
theorem decoding_agrees_with_units (b : Buffer) :
    RegistryValue.decode RegistryType.multiString b.contentsList =
        .ok (.multiString (RegistryValue.splitStrings b.units)) ∧
      0 ∉ b.setLengthToFirstNull.units ∧
      b.IsFirstNull b.setLengthToFirstNull.charLength ∧
      RegistryValue.decode RegistryType.string (Bytes.toList b.setLengthToFirstNull.bytes) =
        .ok (.string b.setLengthToFirstNull.text) ∧
      (0 ∉ b.units →
        RegistryValue.decode RegistryType.string b.contentsList = .ok (.string b.text)) := by
  refine ⟨?_, ?_, ?_, ?_, ?_⟩
  · rw [units_eq_ofBytes]
    exact RegistryValue.decode_multiString _
  · rw [units_setLengthToFirstNull]
    exact Utf16.zero_notMem_beforeNull _
  · rw [charLength_setLengthToFirstNull]
    exact b.isFirstNull_firstNull
  · rw [← textOf_allocation]
    exact RegistryValue.decode_string _
  · intro hfree
    rw [← textOf_contents hfree]
    exact RegistryValue.decode_string _

/-- A surrogate and half of a null are all that is within an odd length. -/
theorem decoding_agrees_with_units_odd :
    ∃ b : Buffer, b.contentsList = [0x00, 0xD8, 0] ∧ b.units = [0xD800] ∧ 0 ∉ b.units ∧
      RegistryValue.decode RegistryType.string [0x00, 0xD8, 0] = .ok (.string "\uFFFD") := by
  let b : Buffer := ⟨⟨#[0x00, 0xD8, 0, 0, 0x41, 0, 0, 0]⟩, 3, rfl, by decide, by decide⟩
  have hcontents : b.contentsList = [0x00, 0xD8, 0] := by decide
  have hunits : b.units = [0xD800] := by decide
  have hfree : 0 ∉ b.units := by
    rw [hunits]
    decide
  have hdecode := (decoding_agrees_with_units b).2.2.2.2 hfree
  rw [hcontents, text, hunits] at hdecode
  exact ⟨b, hcontents, hunits, hfree, hdecode⟩

end Buffer

end NativeResource

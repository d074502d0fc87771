import NativeResource.Proofs.Code.Kind
/-!
The two translations of a code never contradict each other. Success divides the codes: one that
succeeds has its number for a kind, and its signal is to go on; one that fails asks for room, ends
an enumeration or is a failure, and its kind says the same. No number means "too small", or the end
of an enumeration, in both vocabularies.
-/
namespace NativeResource

/-- A kind with a meaning, where other kinds only hand on the number of a code. -/
def Kind.isNamed : Kind → Bool
  | .other _ => false
  | _ => true

def Signal.withoutResult : List Signal := [.insufficientBuffer, .noMoreEntries, .failure]

namespace Code

variable {c : Code} {raw : UInt32}

section Tables

theorem isSuccess_of_isInsufficientBuffer (h : c.isInsufficientBuffer = true) :
    c.isSuccess = false := by
  have hall : ∀ c ∈ insufficientBufferCodes, c.isSuccess = false := by decide
  exact hall c (List.contains_iff_mem.mp h)

theorem isSuccess_of_isEndOfEnumeration (h : c.isEndOfEnumeration = true) :
    c.isSuccess = false := by
  have hall : ∀ c ∈ endOfEnumerationCodes, c.isSuccess = false := by decide
  exact hall c (List.contains_iff_mem.mp h)

theorem isMoreEntries_iff : c.isMoreEntries = true ↔ c = .ntStatus NtStatus.moreEntries :=
  beq_iff_eq

theorem isSuccess_of_isMoreEntries (h : c.isMoreEntries = true) : c.isSuccess = true := by
  rw [isMoreEntries_iff.mp h]
  decide

/-- The number of a Win32 code that a loop reacts to is that of a success among the statuses. -/
theorem isSuccess_ntStatus
    (h : (win32 raw).isInsufficientBuffer = true ∨ (win32 raw).isEndOfEnumeration = true) :
    (ntStatus raw).isSuccess = true := by
  have hall : ∀ c ∈ insufficientBufferCodes ++ endOfEnumerationCodes,
      c = .win32 c.raw → (ntStatus c.raw).isSuccess = true := by decide
  have hmem : win32 raw ∈ insufficientBufferCodes ++ endOfEnumerationCodes := by
    rw [List.mem_append]
    exact h.imp List.contains_iff_mem.mp List.contains_iff_mem.mp
  exact hall (.win32 raw) hmem rfl

theorem isNamed_of_mem {entry : UInt32 × Kind} (h : entry ∈ c.kinds) : entry.2.isNamed = true := by
  have hw : ∀ e ∈ Win32.kinds, e.2.isNamed = true := by decide
  have hn : ∀ e ∈ NtStatus.kinds, e.2.isNamed = true := by decide
  cases c with
  | win32 raw => exact hw entry h
  | ntStatus raw => exact hn entry h

theorem ne_of_mem_kinds (h : c.isSuccess = true) {entry : UInt32 × Kind} (hmem : entry ∈ c.kinds) :
    c.raw ≠ entry.1 := by
  have hw : ∀ e ∈ Win32.kinds, (win32 e.1).isSuccess = false := by decide
  have hn : ∀ e ∈ NtStatus.kinds, (ntStatus e.1).isSuccess = false := by decide
  intro hraw
  cases c with
  | win32 raw =>
    cases hraw
    rw [hw entry hmem] at h
    cases h
  | ntStatus raw =>
    cases hraw
    rw [hn entry hmem] at h
    cases h

theorem lookup_kinds_of_isSuccess (h : c.isSuccess = true) : c.kinds.lookup c.raw = none := by
  rw [List.lookup_eq_none_iff]
  intro entry hmem
  exact bne_iff_ne.mpr (ne_of_mem_kinds h hmem)

end Tables

section Success

theorem not_listed_of_isSuccess (h : c.isSuccess = true) :
    c.isInsufficientBuffer = false ∧ c.isEndOfEnumeration = false := by
  constructor
  · rw [Bool.eq_false_iff]
    intro hi
    rw [isSuccess_of_isInsufficientBuffer hi] at h
    cases h
  · rw [Bool.eq_false_iff]
    intro he
    rw [isSuccess_of_isEndOfEnumeration he] at h
    cases h

theorem signal_of_isSuccess (h : c.isSuccess = true) :
    c.signal = if c.isMoreEntries then .moreEntries else .success := by
  obtain ⟨hi, he⟩ := not_listed_of_isSuccess h
  simp [signal, hi, he, h]

theorem kind_of_isSuccess (h : c.isSuccess = true) : c.kind = .other c.raw := by
  obtain ⟨hi, he⟩ := not_listed_of_isSuccess h
  simp [kind, hi, he, lookup_kinds_of_isSuccess h]

theorem signal_of_not_isSuccess (h : c.isSuccess = false) :
    c.signal = if c.isInsufficientBuffer then .insufficientBuffer
      else if c.isEndOfEnumeration then .noMoreEntries else .failure := by
  have hm : c.isMoreEntries = false := by
    rw [Bool.eq_false_iff]
    intro hm
    rw [isSuccess_of_isMoreEntries hm] at h
    cases h
  simp [signal, hm, h]

theorem signal_mem_withoutResult_iff : c.signal ∈ Signal.withoutResult ↔ c.isSuccess = false := by
  cases h : c.isSuccess with
  | true =>
    rw [signal_of_isSuccess h]
    split <;> decide
  | false =>
    rw [signal_of_not_isSuccess h]
    split
    · decide
    · split <;> decide

theorem signal_eq_success_iff :
    c.signal = .success ↔ c.isSuccess = true ∧ c ≠ .ntStatus NtStatus.moreEntries := by
  rw [ne_eq, ← isMoreEntries_iff]
  cases h : c.isSuccess with
  | true =>
    rw [signal_of_isSuccess h]
    cases c.isMoreEntries <;> decide
  | false =>
    have hmem := signal_mem_withoutResult_iff.mpr h
    constructor
    · intro hs
      rw [hs] at hmem
      exact absurd hmem (by decide)
    · rintro ⟨hfalse, -⟩
      cases hfalse

theorem signal_ntStatus_notMem
    (h : (win32 raw).isInsufficientBuffer = true ∨ (win32 raw).isEndOfEnumeration = true) :
    (ntStatus raw).signal ∉ Signal.withoutResult := by
  rw [signal_mem_withoutResult_iff, isSuccess_ntStatus h]
  exact Bool.noConfusion

theorem eq_raw_of_kind_other (h : c.kind = .other raw) : raw = c.raw := by
  unfold kind at h
  split at h
  · cases h
  · split at h
    · cases h
    · cases hl : c.kinds.lookup c.raw with
      | none =>
        rw [hl] at h
        cases h
        rfl
      | some k =>
        rw [hl, Option.getD_some] at h
        have hnamed := isNamed_of_mem (mem_kinds_of_lookup hl)
        rw [h] at hnamed
        cases hnamed

end Success

/-- What the signal of a code and its kind say of each other. -/
structure Consistent (c : Code) : Prop where
  insufficient_iff : c.signal = .insufficientBuffer ↔ c.kind = .insufficientBuffer
  ended : c.signal = .noMoreEntries → c.kind = .notFound
  unclassified : c.signal = .success ∨ c.signal = .moreEntries → c.kind = .other c.raw
  own_number : ∀ raw, c.kind = .other raw → raw = c.raw
  success_iff : c.signal = .success ↔ c.isSuccess = true ∧ c ≠ .ntStatus NtStatus.moreEntries
  without_result_iff : c.signal ∈ Signal.withoutResult ↔ c.isSuccess = false

theorem consistent (c : Code) : Consistent c := by
  refine ⟨?_, kind_of_noMoreEntries, ?_, fun raw => eq_raw_of_kind_other, signal_eq_success_iff,
    signal_mem_withoutResult_iff⟩
  · rw [signal_eq_insufficientBuffer_iff, kind_eq_insufficientBuffer_iff]
  · intro hgoes
    apply kind_of_isSuccess
    rw [← Bool.not_eq_false, ← signal_mem_withoutResult_iff]
    rcases hgoes with hs | hs
    · rw [hs]
      decide
    · rw [hs]
      decide

/-- In either vocabulary the signal of a code and its kind agree, and no number asks for a larger
buffer in both, or ends an enumeration in both. -/
theorem signal_and_kind_consistent (raw : UInt32) :
    (win32 raw).Consistent ∧ (ntStatus raw).Consistent ∧
      ¬((win32 raw).signal = .insufficientBuffer ∧ (ntStatus raw).signal = .insufficientBuffer) ∧
      ¬((win32 raw).signal = .noMoreEntries ∧ (ntStatus raw).signal = .noMoreEntries) := by
  refine ⟨consistent _, consistent _, ?_, ?_⟩
  · rintro ⟨hw, hn⟩
    apply signal_ntStatus_notMem (.inl (signal_eq_insufficientBuffer_iff.mp hw))
    rw [hn]
    decide
  · rintro ⟨hw, hn⟩
    apply signal_ntStatus_notMem (.inr (isEndOfEnumeration_of_noMoreEntries hw).2)
    rw [hn]
    decide

example : (win32 NtStatus.moreEntries).signal = .failure ∧
    (ntStatus NtStatus.moreEntries).signal = .moreEntries := by decide

end Code

end NativeResource

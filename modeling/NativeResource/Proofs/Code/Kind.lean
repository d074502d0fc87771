import NativeResource.Failure.Kind
/-!
The signal of a code and its kind side by side. A code asks for a larger buffer exactly if its kind
says so, and the end of an enumeration is an object that was not found. Of the error codes only
zero is a success, and none of them announces more entries.
-/
namespace NativeResource

namespace Code

variable {c : Code}

theorem signal_eq_insufficientBuffer_iff :
    c.signal = .insufficientBuffer ↔ c.isInsufficientBuffer = true := by
  constructor
  · intro h
    unfold signal at h
    split at h
    · assumption
    · split at h
      · cases h
      · split at h
        · cases h
        · split at h <;> cases h
  · intro h
    exact if_pos h

theorem isEndOfEnumeration_of_noMoreEntries (h : c.signal = .noMoreEntries) :
    c.isInsufficientBuffer = false ∧ c.isEndOfEnumeration = true := by
  unfold signal at h
  split at h
  · cases h
  · next hi =>
    split at h
    · cases h
    · split at h
      · next he => exact ⟨Bool.eq_false_iff.mpr hi, he⟩
      · split at h <;> cases h

theorem mem_kinds_of_lookup {k : Kind} (h : c.kinds.lookup c.raw = some k) :
    (c.raw, k) ∈ c.kinds := by
  obtain ⟨before, after, hkinds, -⟩ := List.lookup_eq_some_iff.mp h
  simp [hkinds]

theorem kind_ne_insufficientBuffer_of_mem {entry : UInt32 × Kind} (h : entry ∈ c.kinds) :
    entry.2 ≠ .insufficientBuffer := by
  have hw : ∀ e ∈ Win32.kinds, e.2 ≠ .insufficientBuffer := by decide
  have hn : ∀ e ∈ NtStatus.kinds, e.2 ≠ .insufficientBuffer := by decide
  cases c with
  | win32 raw => exact hw entry h
  | ntStatus raw => exact hn entry h

theorem kind_eq_insufficientBuffer_iff :
    c.kind = .insufficientBuffer ↔ c.isInsufficientBuffer = true := by
  constructor
  · intro h
    unfold kind at h
    split at h
    · assumption
    · split at h
      · cases h
      · cases hl : c.kinds.lookup c.raw with
        | none =>
          rw [hl] at h
          cases h
        | some k =>
          rw [hl] at h
          exact absurd h (kind_ne_insufficientBuffer_of_mem (mem_kinds_of_lookup hl))
  · intro h
    exact if_pos h

theorem kind_ne_insufficientBuffer (h : c.signal ≠ .insufficientBuffer) :
    c.kind ≠ .insufficientBuffer := by
  intro hk
  exact h (signal_eq_insufficientBuffer_iff.mpr (kind_eq_insufficientBuffer_iff.mp hk))

theorem kind_of_noMoreEntries (h : c.signal = .noMoreEntries) : c.kind = .notFound := by
  obtain ⟨hi, he⟩ := isEndOfEnumeration_of_noMoreEntries h
  simp [kind, hi, he]

theorem signal_win32_ne_moreEntries (raw : UInt32) : (win32 raw).signal ≠ .moreEntries := by
  have hmore : (win32 raw).isMoreEntries = false := by
    rw [isMoreEntries, beq_eq_false_iff_ne]
    exact nofun
  unfold signal
  rw [hmore]
  split
  · exact nofun
  · split
    · contradiction
    · split
      · exact nofun
      · split <;> exact nofun

theorem signal_win32_eq_success_iff {raw : UInt32} :
    (win32 raw).signal = .success ↔ raw = Win32.success := by
  constructor
  · intro h
    unfold signal at h
    split at h
    · cases h
    · split at h
      · cases h
      · split at h
        · cases h
        · split at h
          · next hs => exact eq_of_beq hs
          · cases h
  · rintro rfl
    rfl

end Code

end NativeResource

import Mathlib.Data.List.Perm.Basic
import NativeResource.Pool
/-!
What one request takes out of a pool, and what one buffer handed back adds. A request removes
exactly the selected slot, whether it is then served or not; a returned buffer takes the last slot
or none.
-/
namespace NativeResource

namespace Pool

variable {n i : Nat} {p : Pool} {slots : List Buffer}

theorem length_swapRemove {α : Type} (xs : List α) (i : Nat) :
    (swapRemove xs i).length = xs.length - 1 := by
  unfold swapRemove
  cases h : xs.getLast? with
  | none =>
    rw [List.getLast?_eq_none_iff.mp h]
    rfl
  | some last => simp

theorem swapRemove_perm_eraseIdx {α : Type} {xs : List α} {i : Nat} (h : i < xs.length) :
    (swapRemove xs i).Perm (xs.eraseIdx i) := by
  rcases List.eq_nil_or_concat xs with rfl | ⟨init, last, rfl⟩
  · exact .nil
  · simp only [List.concat_eq_append, List.length_append, List.length_singleton] at h ⊢
    have hswap : swapRemove (init ++ [last]) i = ((init ++ [last]).set i last).dropLast := by
      simp [swapRemove]
    rw [hswap]
    by_cases hi : i < init.length
    · rw [List.set_append_left i last hi, List.dropLast_concat,
        List.eraseIdx_append_of_lt_length hi]
      exact (List.set_perm_cons_eraseIdx hi last).trans (List.perm_append_singleton last _).symm
    · have hlast : i = init.length := by omega
      subst hlast
      simp [List.eraseIdx_append_of_length_le]

theorem choose?_lt {capacities : List Nat} (h : choose? capacities n = some i) :
    i < capacities.length := by
  unfold choose? at h
  split at h
  · next least hleast =>
    cases h
    have hmem := (List.mem_filter.mp (List.min?_mem hleast)).1
    exact List.idxOf_lt_length_of_mem hmem
  · obtain ⟨most, hmost, rfl⟩ := Option.map_eq_some_iff.mp h
    have hpos := List.length_pos_of_mem (List.max?_mem hmost)
    unfold lastIndex
    omega

theorem choose?_eq_none_iff {capacities : List Nat} :
    choose? capacities n = none ↔ capacities = [] := by
  unfold choose?
  constructor
  · intro h
    split at h
    · cases h
    · exact List.max?_eq_none_iff.mp (Option.map_eq_none_iff.mp h)
  · rintro rfl
    rfl

theorem select?_lt (h : select? slots n = some i) : i < slots.length := by
  have := choose?_lt h
  rwa [List.length_map] at this

theorem select?_eq_none_iff : select? slots n = none ↔ slots = [] := by
  rw [select?, choose?_eq_none_iff, List.map_eq_nil_iff]

theorem take?_of_select? (h : select? p.slots n = some i) :
    ∃ b, p.slots[i]? = some b ∧
      p.take? n = some (b, { p with slots := swapRemove p.slots i }) := by
  have hb := List.getElem?_eq_getElem (select?_lt h)
  refine ⟨_, hb, ?_⟩
  simp only [take?, h, hb, Option.bind_eq_bind, Option.bind_some]
  rfl

theorem acquire_cases (alloc : Allocator) (n : Nat) (p : Pool) :
    (p.slots = [] ∧ (p.acquire alloc n).2 = p) ∨
      ∃ i, select? p.slots n = some i ∧ i < p.slots.length ∧
        (p.acquire alloc n).2 = { p with slots := swapRemove p.slots i } := by
  cases hselect : select? p.slots n with
  | none =>
    have htake : p.take? n = none := by simp [take?, hselect]
    refine .inl ⟨select?_eq_none_iff.mp hselect, ?_⟩
    simp only [acquire, htake]
  | some i =>
    obtain ⟨b, -, htake⟩ := take?_of_select? hselect
    refine .inr ⟨i, rfl, select?_lt hselect, ?_⟩
    simp only [acquire, htake]

theorem limits_acquire (alloc : Allocator) (n : Nat) (p : Pool) :
    (p.acquire alloc n).2.limits = p.limits := by
  rcases acquire_cases alloc n p with ⟨-, h⟩ | ⟨i, -, -, h⟩ <;> rw [h]

theorem size_acquire (alloc : Allocator) (n : Nat) (p : Pool) :
    (p.acquire alloc n).2.size = p.size - 1 := by
  rcases acquire_cases alloc n p with ⟨hnil, h⟩ | ⟨i, -, -, h⟩
  · simp [h, size, hnil]
  · rw [h]
    exact length_swapRemove p.slots i

theorem acquire_singleton {b : Buffer} (alloc : Allocator) (limits : PoolLimits)
    (h : n ≤ b.capacity) :
    Pool.acquire alloc n ⟨limits, [b]⟩ = (.ok b.clear, ⟨limits, []⟩) := by
  have hselect : select? [b] n = some 0 := by
    simp [select?, choose?, firstIndex, h]
  obtain ⟨c, hc, htake⟩ := take?_of_select? (p := ⟨limits, [b]⟩) hselect
  cases hc
  have hreserve : b.clear.reserve alloc n = .ok b.clear := Buffer.reserve_of_le h
  simp only [acquire, htake, hreserve]
  rfl

/-- A returned buffer takes the last slot, emptied, if it has an allocation within the size limit
and a slot is free; otherwise it is freed. -/
theorem release_fst (p : Pool) (b : Buffer) :
    (p.release b).1 =
      if 0 < b.capacity ∧ b.capacity ≤ p.limits.maxPooledSize ∧ p.size < p.limits.maxSlots then
        { p with slots := p.slots ++ [b.clear] }
      else p := by
  unfold release
  by_cases hzero : b.capacity = 0
  · simp [hzero]
  · have hpos : 0 < b.capacity := Nat.pos_of_ne_zero hzero
    by_cases hlarge : p.limits.maxPooledSize < b.capacity
    · simp [hzero, hlarge, Nat.not_le.mpr hlarge]
    · by_cases hfree : p.size < p.limits.maxSlots <;>
        simp [hzero, hpos, hlarge, hfree, Nat.le_of_not_lt hlarge]

theorem release_snd_ne_nil_iff (p : Pool) (b : Buffer) :
    (p.release b).2 ≠ [] ↔ 0 < b.capacity ∧ (p.release b).1.slots ≠ p.slots ++ [b.clear] := by
  unfold release
  by_cases hzero : b.capacity = 0
  · simp [hzero]
  · have hpos : 0 < b.capacity := Nat.pos_of_ne_zero hzero
    by_cases hlarge : p.limits.maxPooledSize < b.capacity
    · simp [hzero, hpos, hlarge]
    · by_cases hfree : p.size < p.limits.maxSlots <;> simp [hzero, hpos, hlarge, hfree]

theorem length_release_snd_le (p : Pool) (b : Buffer) : (p.release b).2.length ≤ 1 := by
  unfold release
  split
  · exact Nat.zero_le 1
  · split
    · exact Nat.le_refl 1
    · split
      · exact Nat.zero_le 1
      · exact Nat.le_refl 1

theorem mem_release_snd {p : Pool} {b : Buffer} {event : Event} (h : event ∈ (p.release b).2) :
    event = .oversizedDropped b.capacity p.limits.maxPooledSize ∨
      event = .surplusDropped b.capacity p.limits.maxSlots := by
  unfold release at h
  split at h
  · cases h
  · split at h
    · exact .inl (List.mem_singleton.mp h)
    · split at h
      · cases h
      · exact .inr (List.mem_singleton.mp h)

theorem limits_release (p : Pool) (b : Buffer) : (p.release b).1.limits = p.limits := by
  rw [release_fst]
  split <;> rfl

theorem size_release_le (p : Pool) (b : Buffer) : (p.release b).1.size ≤ p.size + 1 := by
  rw [release_fst]
  split
  · simp [size]
  · exact Nat.le_succ _

theorem size_release_le_maxSlots {p : Pool} (b : Buffer) (h : p.size ≤ p.limits.maxSlots) :
    (p.release b).1.size ≤ p.limits.maxSlots := by
  rw [release_fst]
  split
  · next hkeep =>
    have := hkeep.2.2
    simp only [size, List.length_append, List.length_singleton] at this ⊢
    omega
  · exact h

end Pool

end NativeResource

import NativeResource.Proofs.Pool.Exchange
/-!
Which slot a request takes: the least capacity that is large enough, the first of equals; and where
none is large enough, the greatest one, the last of equals.
-/
namespace NativeResource

namespace Pool

variable {capacities xs : List Nat} {slots : List Buffer} {p : Pool} {n i j x : Nat}
  {b c : Buffer}

theorem ne_of_lt_firstIndex (h : j < firstIndex xs x) : xs[j]? ≠ some x := by
  intro hj
  have hlt : j < xs.length := (List.getElem?_eq_some_iff.mp hj).1
  have hother := List.not_of_lt_findIdx h
  rw [List.getElem?_eq_getElem hlt] at hj
  simp only [Option.some.inj hj, beq_self_eq_true] at hother
  cases hother

theorem getElem?_lastIndex (h : x ∈ xs) : xs[lastIndex xs x]? = some x := by
  have hmem : x ∈ xs.reverse := List.mem_reverse.mpr h
  have hlt := List.idxOf_lt_length_of_mem hmem
  rw [List.length_reverse] at hlt
  rw [lastIndex, ← List.getElem?_reverse hlt]
  exact List.getElem?_idxOf hmem

theorem ne_of_lastIndex_lt (h : lastIndex xs x < j) : xs[j]? ≠ some x := by
  intro hj
  have hlt : j < xs.length := (List.getElem?_eq_some_iff.mp hj).1
  have hmirror : xs.length - 1 - (xs.length - 1 - j) = j := by omega
  have hbefore : xs.length - 1 - j < firstIndex xs.reverse x := by
    simp only [lastIndex] at h
    simp only [firstIndex]
    omega
  apply ne_of_lt_firstIndex hbefore
  rw [List.getElem?_reverse (by omega), hmirror, hj]

inductive Selects (slots : List Buffer) (n i : Nat) (b : Buffer) : Prop where
  | fitting : slots[i]? = some b → n ≤ b.capacity →
      (∀ c ∈ slots, n ≤ c.capacity → b.capacity ≤ c.capacity) →
      (∀ j c, j < i → slots[j]? = some c → c.capacity ≠ b.capacity) → Selects slots n i b
  | largest : slots[i]? = some b → (∀ c ∈ slots, c.capacity < n) →
      (∀ c ∈ slots, c.capacity ≤ b.capacity) →
      (∀ j c, i < j → slots[j]? = some c → c.capacity ≠ b.capacity) → Selects slots n i b

theorem Selects.getElem?_eq (h : Selects slots n i b) : slots[i]? = some b := by
  cases h <;> assumption

theorem Selects.largest_of_short (h : Selects slots n i b)
    (hshort : ∀ c ∈ slots, c.capacity < n) :
    (∀ c ∈ slots, c.capacity ≤ b.capacity) ∧
      ∀ j c, i < j → slots[j]? = some c → c.capacity < b.capacity := by
  cases h with
  | fitting hslot hroom _ _ =>
    have := hshort b (List.mem_of_getElem? hslot)
    omega
  | largest _ _ hmax hlast =>
    refine ⟨hmax, ?_⟩
    intro j c hj hc
    have hle := hmax c (List.mem_of_getElem? hc)
    have hne := hlast j c hj hc
    omega

theorem exists_of_getElem?_capacities (h : (slots.map Buffer.capacity)[i]? = some x) :
    ∃ b, slots[i]? = some b ∧ b.capacity = x := by
  rw [List.getElem?_map] at h
  exact Option.map_eq_some_iff.mp h

theorem getElem?_capacities (h : slots[i]? = some b) :
    (slots.map Buffer.capacity)[i]? = some b.capacity := by
  rw [List.getElem?_map, h]
  rfl

theorem exists_selects (h : select? slots n = some i) : ∃ b, Selects slots n i b := by
  unfold select? choose? at h
  split at h
  · next least hleast =>
    cases h
    obtain ⟨hmem, hmin⟩ := List.min?_eq_some_iff.mp hleast
    obtain ⟨hheld, hfits⟩ := List.mem_filter.mp hmem
    obtain ⟨b, hb, rfl⟩ := exists_of_getElem?_capacities (List.getElem?_idxOf hheld)
    refine ⟨b, .fitting hb (of_decide_eq_true hfits) ?_ ?_⟩
    · intro c hc hroom
      exact hmin c.capacity (List.mem_filter.mpr
        ⟨List.mem_map_of_mem hc, decide_eq_true hroom⟩)
    · intro j c hj hc heq
      have hsame := getElem?_capacities hc
      rw [heq] at hsame
      exact ne_of_lt_firstIndex hj hsame
  · next hnone =>
    obtain ⟨most, hmost, rfl⟩ := Option.map_eq_some_iff.mp h
    obtain ⟨hmem, hmax⟩ := List.max?_eq_some_iff.mp hmost
    obtain ⟨b, hb, rfl⟩ := exists_of_getElem?_capacities (getElem?_lastIndex hmem)
    refine ⟨b, .largest hb ?_ ?_ ?_⟩
    · intro c hc
      have hshort := List.filter_eq_nil_iff.mp (List.min?_eq_none_iff.mp hnone) c.capacity
        (List.mem_map_of_mem hc)
      exact Nat.lt_of_not_le fun hroom => hshort (decide_eq_true hroom)
    · intro c hc
      exact hmax c.capacity (List.mem_map_of_mem hc)
    · intro j c hj hc heq
      have hsame := getElem?_capacities hc
      rw [heq] at hsame
      exact ne_of_lastIndex_lt hj hsame

/-- A request from a pool that is not empty takes out the selected slot, for better or worse: which
one does not depend on what can be allocated. -/
theorem exists_acquire_selects (n : Nat) (h : p.slots ≠ []) :
    ∃ i b, Selects p.slots n i b ∧ ∀ alloc : Allocator,
      p.acquire alloc n = (b.clear.reserve alloc n, { p with slots := swapRemove p.slots i }) := by
  cases hselect : select? p.slots n with
  | none => exact absurd (select?_eq_none_iff.mp hselect) h
  | some i =>
    obtain ⟨b, hb⟩ := exists_selects hselect
    obtain ⟨c, hc, htake⟩ := take?_of_select? hselect
    cases hc.symm.trans hb.getElem?_eq
    refine ⟨i, b, hb, ?_⟩
    intro alloc
    simp only [acquire, htake]

end Pool

end NativeResource

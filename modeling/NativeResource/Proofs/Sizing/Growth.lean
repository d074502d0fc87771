import NativeResource.Sizing.Policy
/-!
One growth of a buffer. It is refused exactly at the ceiling and for a report past it; one that is
made raises the capacity, to the ceiling or at least to twice what it was.
-/
namespace NativeResource

namespace SizingPolicy

variable {p : SizingPolicy} {capacity required target : Nat}

theorem required_le_wanted (p : SizingPolicy) (capacity required : Nat) :
    required ≤ p.wanted capacity required := by
  unfold wanted
  omega

theorem lt_wanted (p : SizingPolicy) (required : Nat) (hc : capacity ≤ Allocator.largestBlock) :
    capacity < p.wanted capacity required := by
  have hi := p.increment_pos
  simp only [wanted, saturate, sizeLimit, Allocator.largestBlock] at hc ⊢
  omega

/-- Sums and products of sizes that a buffer can have do not saturate. -/
theorem double_le_wanted (p : SizingPolicy) (required : Nat)
    (hc : capacity ≤ Allocator.largestBlock) : 2 * capacity ≤ p.wanted capacity required := by
  simp only [wanted, saturate, sizeLimit, Allocator.largestBlock] at hc ⊢
  omega

theorem target?_of_wanted_le (h : p.wanted capacity required ≤ p.ceiling) :
    p.target? capacity required = some (p.wanted capacity required) := if_pos h

theorem target?_of_lt_wanted (h : p.ceiling < p.wanted capacity required)
    (ht : p.target? capacity required = some target) :
    target = p.ceiling ∧ capacity < p.ceiling := by
  rw [target?, if_neg (Nat.not_le.mpr h)] at ht
  split at ht
  · next hlt => exact ⟨(Option.some.inj ht).symm, hlt.1⟩
  · cases ht

theorem target?_eq_none_iff (p : SizingPolicy) (required : Nat)
    (hc : capacity ≤ Allocator.largestBlock) :
    p.target? capacity required = none ↔ p.ceiling ≤ capacity ∨ p.ceiling < required := by
  have hw := lt_wanted p required hc
  have hr := required_le_wanted p capacity required
  unfold target?
  split
  · next hle =>
    constructor
    · intro h
      cases h
    · intro h
      omega
  · split
    · next hlt =>
      constructor
      · intro h
        cases h
      · intro h
        omega
    · next hlt =>
      constructor
      · intro _
        omega
      · intro _
        rfl

variable {alloc : Allocator} {a : Answer} {b c : Buffer}

theorem grow_of_refused (h : p.target? b.capacity a.size = none) :
    (p.grow alloc a b).result = .error ⟨.ceiling p.ceiling a.code, none⟩ := by
  simp only [grow, h]

theorem grow_of_target {t : Nat} (h : p.target? b.capacity a.size = some t) :
    (p.grow alloc a b).result = b.reserve alloc t := by
  simp only [grow, h]

theorem grow_error {f : Failure} (h : (p.grow alloc a b).result = .error f) :
    (f = ⟨.ceiling p.ceiling a.code, none⟩ ∧ (p.ceiling ≤ b.capacity ∨ p.ceiling < a.size)) ∨
      ∃ t fault, p.target? b.capacity a.size = some t ∧
        alloc.fault? (roundToWord t) = some fault ∧ f = ⟨.growth t fault, none⟩ := by
  cases ht : p.target? b.capacity a.size with
  | none =>
    rw [grow_of_refused ht] at h
    exact .inl ⟨(Except.error.inj h).symm, (target?_eq_none_iff p a.size b.capacity_le).mp ht⟩
  | some t =>
    rw [grow_of_target ht] at h
    obtain ⟨fault, hfault, hf⟩ := Buffer.fault_of_reserve h
    exact .inr ⟨t, fault, rfl, hfault, hf⟩

theorem le_capacity_of_grow (h : (p.grow alloc a b).result = .ok c) :
    ∃ t, p.target? b.capacity a.size = some t ∧ t ≤ c.capacity := by
  cases ht : p.target? b.capacity a.size with
  | none =>
    rw [grow_of_refused ht] at h
    cases h
  | some t =>
    rw [grow_of_target ht] at h
    exact ⟨t, rfl, (Buffer.le_capacity_of_reserve h).2⟩

theorem capacity_of_grow_uncut (h : (p.grow alloc a b).result = .ok c)
    (hw : p.wanted b.capacity a.size ≤ p.ceiling) :
    b.capacity < c.capacity ∧ 2 * b.capacity ≤ c.capacity := by
  obtain ⟨t, ht, hle⟩ := le_capacity_of_grow h
  rw [target?_of_wanted_le hw] at ht
  cases ht
  have hlt := lt_wanted p a.size b.capacity_le
  have hd := double_le_wanted p a.size b.capacity_le
  exact ⟨Nat.lt_of_lt_of_le hlt hle, Nat.le_trans hd hle⟩

theorem capacity_of_grow_cut (h : (p.grow alloc a b).result = .ok c)
    (hw : p.ceiling < p.wanted b.capacity a.size) :
    b.capacity < p.ceiling ∧ p.ceiling ≤ c.capacity := by
  obtain ⟨t, ht, hle⟩ := le_capacity_of_grow h
  obtain ⟨rfl, hlt⟩ := target?_of_lt_wanted hw ht
  exact ⟨hlt, hle⟩

theorem lt_ceiling_of_grow (h : (p.grow alloc a b).result = .ok c) : b.capacity < p.ceiling := by
  obtain ⟨t, ht, -⟩ := le_capacity_of_grow h
  apply Nat.lt_of_not_le
  intro hn
  rw [(target?_eq_none_iff p a.size b.capacity_le).mpr (.inl hn)] at ht
  cases ht

theorem lt_capacity_of_grow (h : (p.grow alloc a b).result = .ok c) :
    b.capacity < c.capacity := by
  by_cases hw : p.wanted b.capacity a.size ≤ p.ceiling
  · exact (capacity_of_grow_uncut h hw).1
  · obtain ⟨hlt, hle⟩ := capacity_of_grow_cut h (Nat.lt_of_not_le hw)
    exact Nat.lt_of_lt_of_le hlt hle

end SizingPolicy

end NativeResource

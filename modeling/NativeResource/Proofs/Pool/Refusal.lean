import NativeResource.Proofs.Pool.Conservation
import NativeResource.Proofs.Pool.Selection
import NativeResource.Sizing.Session
/-!
A request that fails. It fails for want of memory alone, and only where no retained buffer is large
enough. The buffer that was taken out to be grown is then lost: of the retained buffers all but the
largest one stay, so the pool is as before only if it was empty.
-/
namespace NativeResource

def Allocator.below (limit : Nat) : Allocator := ⟨fun bytes => decide (bytes < limit)⟩

namespace Pool

variable {alloc : Allocator} {n : Nat} {p rest : Pool} {f : Failure}

theorem lt_of_acquire_error (h : p.acquire alloc n = (.error f, rest)) :
    ∀ b ∈ p.slots, b.capacity < n := by
  intro c hc
  obtain ⟨i, b, hb, hacquire⟩ := exists_acquire_selects n (List.ne_nil_of_mem hc)
  rw [hacquire] at h
  cases hb with
  | fitting _ hroom _ _ =>
    rw [Buffer.reserve_of_le (b := b.clear) hroom] at h
    cases h
  | largest _ hshort _ _ => exact hshort c hc

/-- The failure is that of the allocation that was tried, whatever buffer was to be grown. -/
theorem fault_of_acquire_error (h : p.acquire alloc n = (.error f, rest)) :
    ∃ fault, alloc.fault? (roundToWord n) = some fault ∧ f = ⟨.growth n fault, none⟩ := by
  by_cases hnil : p.slots = []
  · rw [acquire_of_nil hnil] at h
    exact Buffer.fault_of_reserve (Prod.mk.inj h).1
  · obtain ⟨i, b, -, hacquire⟩ := exists_acquire_selects n hnil
    rw [hacquire] at h
    exact Buffer.fault_of_reserve (Prod.mk.inj h).1

/-- A request that failed, and the pool that it left: as it was if it was empty, and otherwise
without the buffer that was taken out to be grown, the largest one. -/
structure Refused (alloc : Allocator) (n : Nat) (p : Pool) (f : Failure) (rest : Pool) :
    Prop where
  kind : f.kind = .outOfMemory
  code : f.code = none
  unprovided : alloc.fault? (roundToWord n) ≠ none
  short : ∀ b ∈ p.slots, b.capacity < n
  limits : rest.limits = p.limits
  empty : p.slots = [] → rest = p
  lost : p.slots ≠ [] → ∃ i b, p.slots[i]? = some b ∧ (∀ c ∈ p.slots, c.capacity ≤ b.capacity) ∧
    (∀ j c, i < j → p.slots[j]? = some c → c.capacity < b.capacity) ∧
    rest.slots = swapRemove p.slots i ∧ p.slots.Perm (b :: rest.slots)
  unchanged_iff : rest.slots.Perm p.slots ↔ p.slots = []

theorem refused_of_acquire (h : p.acquire alloc n = (.error f, rest)) :
    Refused alloc n p f rest := by
  obtain ⟨fault, hfault, rfl⟩ := fault_of_acquire_error h
  have hshort := lt_of_acquire_error h
  have hlimits := limits_acquire alloc n p
  have hsize := size_acquire alloc n p
  rw [h] at hlimits hsize
  refine ⟨rfl, rfl, ?_, hshort, hlimits, ?_, ?_, ?_⟩
  · rw [hfault]
    exact Option.some_ne_none fault
  · intro hnil
    rw [acquire_of_nil hnil] at h
    exact (Prod.mk.inj h).2.symm
  · intro hne
    obtain ⟨i, b, hb, hacquire⟩ := exists_acquire_selects n hne
    rw [hacquire] at h
    obtain ⟨-, rfl⟩ := Prod.mk.inj h
    have hslot := hb.getElem?_eq
    obtain ⟨hmax, hlast⟩ := hb.largest_of_short hshort
    exact ⟨i, b, hslot, hmax, hlast, rfl, perm_cons_swapRemove hslot⟩
  · constructor
    · intro hperm
      have hlength : rest.size = p.size := hperm.length_eq
      apply List.eq_nil_of_length_eq_zero
      change p.size = 0
      simp only at hsize
      omega
    · intro hnil
      rw [acquire_of_nil hnil] at h
      rw [← (Prod.mk.inj h).2]

theorem acquire_fails_iff (alloc : Allocator) (n : Nat) (p : Pool) :
    (∃ f rest, p.acquire alloc n = (.error f, rest)) ↔
      0 < n ∧ (∀ b ∈ p.slots, b.capacity < n) ∧ alloc.fault? (roundToWord n) ≠ none := by
  constructor
  · rintro ⟨f, rest, h⟩
    obtain ⟨fault, hfault, -⟩ := fault_of_acquire_error h
    refine ⟨?_, lt_of_acquire_error h, ?_⟩
    · apply Nat.pos_of_ne_zero
      rintro rfl
      by_cases hnil : p.slots = []
      · rw [acquire_of_nil hnil] at h
        cases h
      · obtain ⟨b, hb⟩ := List.exists_mem_of_ne_nil p.slots hnil
        exact Nat.not_lt_zero b.capacity (lt_of_acquire_error h b hb)
    · rw [hfault]
      exact Option.some_ne_none fault
  · rintro ⟨hpos, hshort, hfault⟩
    have hfails : ∀ b : Buffer, b.capacity < n → ∃ f, b.reserve alloc n = .error f := by
      intro b hb
      cases hreserve : b.reserve alloc n with
      | error f => exact ⟨f, rfl⟩
      | ok c => exact absurd (Buffer.fault_of_reserve_ok hreserve hb) hfault
    by_cases hnil : p.slots = []
    · obtain ⟨f, hf⟩ := hfails .empty hpos
      refine ⟨f, p, ?_⟩
      rw [acquire_of_nil hnil]
      exact congrArg (·, p) hf
    · obtain ⟨i, b, hb, hacquire⟩ := exists_acquire_selects n hnil
      obtain ⟨f, hf⟩ := hfails b.clear (hshort b (List.mem_of_getElem? hb.getElem?_eq))
      exact ⟨f, _, by rw [hacquire, hf]⟩

/-- A request that fails does so with "out of memory", and the pool keeps all its buffers but the
largest one, which was to be grown and is freed. The runs that start with the request make no call;
they report the failure and leave their state and that pool, and so do leases by name. -/
theorem failed_request_loses_largest {alloc : Allocator} {n : Nat} {p rest : Pool} {f : Failure}
    (h : p.acquire alloc n = (.error f, rest)) :
    Refused alloc n p f rest ∧
    (∀ {σ α : Type} (policy : SizingPolicy) (call : Call σ) (decode : Decoder σ α) (t : σ),
      Session.single policy alloc n call decode ⟨p, t⟩ = some ⟨.failed f, ⟨rest, t⟩, []⟩) ∧
    (∀ {σ α : Type} (policy : SizingPolicy) (call : Call σ) (decode : Decoder σ (List α)) (t : σ),
      Session.enumerate policy alloc n call decode ⟨p, t⟩ = some ⟨.failed f, ⟨rest, t⟩, []⟩) ∧
    (∀ {σ : Type} (policy : SizingPolicy) (chars : Nat) (call : CountedCall σ) (t : σ),
      n = saturate (chars * Buffer.unitBytes) →
        Session.counted policy alloc chars call ⟨p, t⟩ = some ⟨.failed f, ⟨rest, t⟩, []⟩) ∧
    ∀ (held : Table Holding) (leased : Bool) (name : String),
      (Custody.Operation.request leased alloc name n).perform ⟨p, held⟩ =
        ⟨.error f, ⟨rest, held⟩, []⟩ := by
  refine ⟨refused_of_acquire h, ?_, ?_, ?_, ?_⟩
  · intro σ α policy call decode t
    exact Session.withLease_of_refused h
  · intro σ α policy call decode t
    exact Session.withLease_of_refused h
  · rintro σ policy chars call t rfl
    exact Session.withLease_of_refused h
  · intro held leased name
    exact Custody.Operation.perform_request_of_error h

theorem failed_request_loses_largest_second :
    ∃ f rest, Pool.acquire (.below 0x4000000000000) 0x4000000000000
        ⟨{}, [Buffer.empty.extend 8 (by decide), Buffer.empty.extend 64 (by decide)]⟩ =
          (.error f, rest) ∧
      f.kind = .outOfMemory ∧ rest.slots = [Buffer.empty.extend 8 (by decide)] := by
  have hsmall : (Buffer.empty.extend 8 (by decide)).capacity = 8 := by
    rw [Buffer.capacity_extend]
    rfl
  have hlarge : (Buffer.empty.extend 64 (by decide)).capacity = 64 := by
    rw [Buffer.capacity_extend]
    rfl
  obtain ⟨f, rest, h⟩ := (acquire_fails_iff (.below 0x4000000000000) 0x4000000000000
    ⟨{}, [Buffer.empty.extend 8 (by decide), Buffer.empty.extend 64 (by decide)]⟩).mpr (by
      refine ⟨by decide, ?_, by decide⟩
      simp only [List.mem_cons, List.not_mem_nil, or_false, forall_eq_or_imp, forall_eq, hsmall,
        hlarge]
      decide)
  obtain ⟨hrefused, -⟩ := failed_request_loses_largest h
  refine ⟨f, rest, h, hrefused.kind, ?_⟩
  obtain ⟨i, b, hb, hmax, -, hslots, -⟩ := hrefused.lost (List.cons_ne_nil _ _)
  rcases i with _ | _ | i
  · cases hb
    have hle := hmax _ (List.mem_cons_of_mem _ List.mem_cons_self)
    rw [hsmall, hlarge] at hle
    exact absurd hle (by decide)
  · exact hslots
  · cases hb

/-- A pool that retains one buffer, as it was handed back, and then cannot serve a request, retains
none. -/
theorem failed_request_empties_pool :
    ∃ b, Buffer.new (.below 0x4000000000000) 64 = .ok b ∧
      (Pool.release b ⟨{}, []⟩).1.slots = [b] ∧
      ∃ f rest, (Pool.release b ⟨{}, []⟩).1.acquire (.below 0x4000000000000) 0x4000000000000 =
          (.error f, rest) ∧
        f.kind = .outOfMemory ∧ rest.slots = [] ∧
        ¬ rest.slots.Perm (Pool.release b ⟨{}, []⟩).1.slots := by
  have hcapacity : (Buffer.empty.extend 64 (by decide)).capacity = 64 := by
    rw [Buffer.capacity_extend]
    rfl
  have hreleased : (Pool.release (Buffer.empty.extend 64 (by decide)) ⟨{}, []⟩).1 =
      ⟨{}, [Buffer.empty.extend 64 (by decide)]⟩ := by
    rw [release_fst, hcapacity]
    rfl
  obtain ⟨f, rest, h⟩ := (acquire_fails_iff (.below 0x4000000000000) 0x4000000000000
    ⟨{}, [Buffer.empty.extend 64 (by decide)]⟩).mpr (by
      refine ⟨by decide, ?_, by decide⟩
      rw [List.forall_mem_singleton, hcapacity]
      decide)
  have hrefused := refused_of_acquire h
  have hempty : rest.slots = [] := by
    have hsize := size_acquire (.below 0x4000000000000) 0x4000000000000
      ⟨{}, [Buffer.empty.extend 64 (by decide)]⟩
    rw [h] at hsize
    exact List.eq_nil_of_length_eq_zero hsize
  refine ⟨Buffer.empty.extend 64 (by decide), rfl, by rw [hreleased], f, rest, ?_, hrefused.kind,
    hempty, ?_⟩
  · rw [hreleased]
    exact h
  · rw [hreleased, hempty]
    exact fun hperm => List.cons_ne_nil _ _ hperm.nil_eq.symm

end Pool

end NativeResource

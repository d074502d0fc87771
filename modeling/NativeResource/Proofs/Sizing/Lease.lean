import NativeResource.Proofs.Pool.Exchange
import NativeResource.Proofs.Sizing.Enumeration
import NativeResource.Proofs.Sizing.Verdict
/-!
The leased buffer goes back on every exit. However a run ends that obtained its lease, the pool is
what the lease left of it with the leased buffer released once, as the last attempt left its bytes.
Over any number of runs the pool holds no more buffers than it did before, or one.
-/
namespace NativeResource

variable {σ α β : Type} {p : SizingPolicy} {alloc : Allocator} {call : Call σ}

namespace Session

structure LeaseReturned (n : Nat) (s : Session σ) (rest : Pool) (final : Attempt σ)
    (used : Buffer) (e : Effect (Session σ) β) : Prop where
  bytes : used.bytes = final.left.buffer.bytes
  removed : (s.pool.slots = [] ∧ rest.slots = []) ∨
    ∃ i, Pool.select? s.pool.slots n = some i ∧ i < s.pool.slots.length ∧
      rest.slots = Pool.swapRemove s.pool.slots i ∧
      rest.slots.Perm (s.pool.slots.eraseIdx i)
  released : e.state.pool = (rest.release used).1
  reported : ∃ log, e.log = log ++ (rest.release used).2
  retained : e.state.pool.slots =
    if 0 < used.capacity ∧ used.capacity ≤ s.pool.limits.maxPooledSize ∧
        0 < s.pool.limits.maxSlots then rest.slots ++ [used.clear]
    else rest.slots
  limits : e.state.pool.limits = s.pool.limits

variable {n : Nat} {s : Session σ} {b : Buffer} {rest : Pool} {final : Attempt σ}

theorem size_lt_maxSlots_iff (hrest : rest = (s.pool.acquire alloc n).2)
    (hsize : s.pool.size ≤ s.pool.limits.maxSlots) :
    rest.size < rest.limits.maxSlots ↔ 0 < s.pool.limits.maxSlots := by
  have hlimits := Pool.limits_acquire alloc n s.pool
  have hlength := Pool.size_acquire alloc n s.pool
  rw [hrest, hlimits, hlength]
  omega

theorem LeaseReturned.of_giveBack {used : Effect (InUse σ) β}
    (hlease : s.pool.acquire alloc n = (.ok b, rest))
    (hsize : s.pool.size ≤ s.pool.limits.maxSlots)
    (hbytes : used.state.buffer.bytes = final.left.buffer.bytes) :
    LeaseReturned n s rest final used.state.buffer (giveBack rest used) := by
  have hrest : rest = (s.pool.acquire alloc n).2 := by rw [hlease]
  have hlimits : rest.limits = s.pool.limits := by rw [hrest, Pool.limits_acquire]
  have hslot := size_lt_maxSlots_iff hrest hsize
  refine ⟨hbytes, ?_, rfl, ⟨used.log, rfl⟩, ?_, ?_⟩
  · rcases Pool.acquire_cases alloc n s.pool with ⟨hnil, hsame⟩ | ⟨i, hi, hlt, hremoved⟩
    · refine .inl ⟨hnil, ?_⟩
      rw [hrest, hsame]
      exact hnil
    · have hslots : rest.slots = Pool.swapRemove s.pool.slots i := by rw [hrest, hremoved]
      refine .inr ⟨i, hi, hlt, hslots, ?_⟩
      rw [hslots]
      exact Pool.swapRemove_perm_eraseIdx hlt
  · simp only [giveBack, Pool.release_fst, hslot]
    rw [hlimits]
    split <;> rfl
  · simp only [giveBack]
    rw [Pool.limits_release, hlimits]

theorem exists_of_withLease {refused : Failure → β} {use : Run (InUse σ) β}
    {e : Effect (Session σ) β} (hlease : s.pool.acquire alloc n = (.ok b, rest))
    (h : withLease alloc n refused use s = some e) :
    ∃ used, use ⟨b, s.state⟩ = some used ∧ giveBack rest used = e := by
  rw [withLease_of_acquire hlease] at h
  exact Option.map_eq_some_iff.mp h

theorem single_returns_lease {decode : Decoder σ α} {e : Effect (Session σ) (Outcome α)}
    (hlease : s.pool.acquire alloc n = (.ok b, rest))
    (hsize : s.pool.size ≤ s.pool.limits.maxSlots)
    (h : single p alloc n call decode s = some e) :
    ∃ earlier final used, Course p alloc call ⟨b, s.state⟩ earlier final ∧
      LeaseReturned n s rest final used e := by
  obtain ⟨used, hused, rfl⟩ := exists_of_withLease hlease h
  obtain ⟨settled, -, hsettled, -⟩ := Run.bind_eq_some.mp hused
  obtain ⟨earlier, final, hcourse⟩ := Course.exists_of_settle hsettled
  exact ⟨earlier, final, used.state.buffer, hcourse,
    .of_giveBack hlease hsize (bytes_settleOnce hcourse hused)⟩

theorem exists_single_pool_eq {decode : Decoder σ α} {e : Effect (Session σ) (Outcome α)}
    (h : single p alloc n call decode s = some e) (other : Decoder σ β) :
    ∃ e', single p alloc n call other s = some e' ∧ e'.state.pool = e.state.pool := by
  cases hlease : s.pool.acquire alloc n with
  | mk result left =>
    cases result with
    | error f =>
      rw [single, withLease_of_refused hlease] at h
      cases h
      exact ⟨_, withLease_of_refused hlease, rfl⟩
    | ok b =>
      obtain ⟨earlier, last, hcourse⟩ := (single_ends_iff hlease).mp ⟨e, h⟩
      obtain ⟨settled, hsettled, -⟩ := hcourse.settle_eq
      obtain ⟨e', he'⟩ := (single_ends_iff hlease).mpr ⟨earlier, last, hcourse⟩
      refine ⟨e', he', ?_⟩
      rw [single_of_lease hlease, settleOnce_of_settle hsettled] at h he'
      cases h
      cases he'
      simp only [giveBack, Effect.state_after, buffer_decodeSettled]

theorem enumerate_returns_lease {decode : Decoder σ (List α)}
    {e : Effect (Session σ) (Outcome (List α))}
    (hlease : s.pool.acquire alloc n = (.ok b, rest))
    (hsize : s.pool.size ≤ s.pool.limits.maxSlots)
    (h : enumerate p alloc n call decode s = some e) :
    ∃ attempts final used, Enumeration p alloc call decode [] ⟨b, s.state⟩ attempts final used ∧
      used.value = e.value ∧ used.state.state = e.state.state ∧
      LeaseReturned n s rest final used.state.buffer e := by
  obtain ⟨used, hused, rfl⟩ := exists_of_withLease hlease h
  obtain ⟨attempts, final, henum⟩ := Enumeration.exists_of_settleBatches hused
  exact ⟨attempts, final, used, henum, rfl, rfl, .of_giveBack hlease hsize henum.bytes_eq⟩

end Session

namespace Pool

/-- One run over a pool that ended, through any entry point, whether or not it got its lease. -/
inductive Served : Pool → Pool → Prop where
  | single {σ α : Type} {p : SizingPolicy} {alloc : Allocator} {n : Nat} {call : Call σ}
      {decode : Decoder σ α} {s : Session σ} {e : Effect (Session σ) (Outcome α)} :
      Session.single p alloc n call decode s = some e → Served s.pool e.state.pool
  | enumerate {σ α : Type} {p : SizingPolicy} {alloc : Allocator} {n : Nat} {call : Call σ}
      {decode : Decoder σ (List α)} {s : Session σ} {e : Effect (Session σ) (Outcome (List α))} :
      Session.enumerate p alloc n call decode s = some e → Served s.pool e.state.pool
  | counted {σ : Type} {p : SizingPolicy} {alloc : Allocator} {chars : Nat}
      {call : CountedCall σ} {s : Session σ} {e : Effect (Session σ) (Outcome String)} :
      Session.counted p alloc chars call s = some e → Served s.pool e.state.pool

inductive Execution : Pool → Pool → Prop where
  | refl (p : Pool) : Execution p p
  | tail {p q r : Pool} : Execution p q → Served q r → Execution p r

structure Bounded (before after : Pool) : Prop where
  limits : after.limits = before.limits
  size_le_max : after.size ≤ max before.size 1
  size_le_maxSlots : before.size ≤ before.limits.maxSlots → after.size ≤ after.limits.maxSlots

theorem Bounded.trans {p q r : Pool} (h : Bounded p q) (k : Bounded q r) : Bounded p r := by
  refine ⟨k.limits.trans h.limits, ?_, fun hp => k.size_le_maxSlots ?_⟩
  · have := h.size_le_max
    have := k.size_le_max
    omega
  · exact h.size_le_maxSlots hp

theorem bounded_of_withLease {n : Nat} {refused : Failure → β} {use : Run (InUse σ) β}
    {s : Session σ} {e : Effect (Session σ) β}
    (h : Session.withLease alloc n refused use s = some e) : Bounded s.pool e.state.pool := by
  have hlimits := limits_acquire alloc n s.pool
  have hlength := size_acquire alloc n s.pool
  cases hlease : s.pool.acquire alloc n with
  | mk result rest =>
    rw [hlease] at hlimits hlength
    cases result with
    | error f =>
      simp only [Session.withLease, hlease, Option.some.injEq] at h
      subst h
      refine ⟨hlimits, ?_, ?_⟩
      · simp only at hlength ⊢
        omega
      · intro hs
        simp only at hlength hlimits ⊢
        rw [hlimits]
        omega
    | ok b =>
      obtain ⟨used, -, rfl⟩ := Session.exists_of_withLease hlease h
      simp only at hlength hlimits
      refine ⟨(limits_release rest _).trans hlimits, ?_, ?_⟩
      · have := size_release_le rest used.state.buffer
        simp only [Session.giveBack]
        omega
      · intro hs
        have hrest : rest.size ≤ rest.limits.maxSlots := by
          rw [hlimits]
          omega
        simp only [Session.giveBack, limits_release]
        exact size_release_le_maxSlots _ hrest

theorem Served.bounded {before after : Pool} (h : Served before after) : Bounded before after := by
  cases h with
  | single h | enumerate h | counted h => exact bounded_of_withLease h

theorem Execution.bounded {before after : Pool} (h : Execution before after) :
    Bounded before after := by
  induction h with
  | refl => exact ⟨rfl, Nat.le_max_left _ _, id⟩
  | tail _ hserved ih => exact ih.trans hserved.bounded

end Pool

namespace Session

/-- However a run ends that obtained its lease, through whichever entry point, it returns the one
buffer it was lent; and runs add up to no more than one retained buffer. -/
theorem lease_returned_on_every_exit (p : SizingPolicy) {s : Session σ} {n : Nat} {b : Buffer}
    {rest : Pool} (hlease : s.pool.acquire alloc n = (.ok b, rest))
    (hsize : s.pool.size ≤ s.pool.limits.maxSlots) :
    (∀ {α : Type} (call : Call σ) (decode : Decoder σ α) (e : Effect (Session σ) (Outcome α)),
      single p alloc n call decode s = some e →
        ∃ earlier final used, Course p alloc call ⟨b, s.state⟩ earlier final ∧
          LeaseReturned n s rest final used e) ∧
    (∀ {α : Type} (call : Call σ) (decode : Decoder σ (List α))
      (e : Effect (Session σ) (Outcome (List α))),
      enumerate p alloc n call decode s = some e →
        ∃ attempts final used,
          Enumeration p alloc call decode [] ⟨b, s.state⟩ attempts final used ∧
          used.value = e.value ∧ used.state.state = e.state.state ∧
          LeaseReturned n s rest final used.state.buffer e) ∧
    (∀ (chars : Nat) (call : CountedCall σ) (e : Effect (Session σ) (Outcome String)),
      n = saturate (chars * Buffer.unitBytes) → counted p alloc chars call s = some e →
        ∃ earlier final used, Course p alloc call.toCall ⟨b, s.state⟩ earlier final ∧
          LeaseReturned n s rest final used e) ∧
    ∀ after, Pool.Execution s.pool after → after.size ≤ max s.pool.size 1 := by
  refine ⟨?_, ?_, ?_, ?_⟩
  · intro α call decode e h
    exact single_returns_lease hlease hsize h
  · intro α call decode e h
    exact enumerate_returns_lease hlease hsize h
  · rintro chars call e rfl h
    exact single_returns_lease hlease hsize h
  · intro after h
    exact h.bounded.size_le_max

theorem lease_returned_on_every_exit_wanting :
    Pool.acquire ⟨fun _ => true⟩ 8 ⟨{}, [Buffer.empty.extend 8 (by decide)]⟩ =
        (.ok (Buffer.empty.extend 8 (by decide)), ⟨{}, []⟩) ∧
      Pool.size ⟨{}, [Buffer.empty.extend 8 (by decide)]⟩ ≤ 16 ∧
      ∃ e, single {} ⟨fun _ => true⟩ 8 (Call.wanting 100) (fun _ size => pure (.returned size))
          ⟨⟨{}, [Buffer.empty.extend 8 (by decide)]⟩, ()⟩ = some e ∧
        ∃ final used, LeaseReturned 8 ⟨⟨{}, [Buffer.empty.extend 8 (by decide)]⟩, ()⟩ ⟨{}, []⟩
          final used e := by
  have hcapacity : 8 ≤ (Buffer.empty.extend 8 (by decide)).capacity := by
    rw [Buffer.capacity_extend]
    decide
  have hlease := Pool.acquire_singleton ⟨fun _ => true⟩ {} hcapacity
  have hsize : Pool.size ⟨{}, [Buffer.empty.extend 8 (by decide)]⟩ ≤ 16 := by decide
  have hcourse := Course.exists_of_neverShrinks {} ⟨fun _ => true⟩
    (Call.wanting_neverShrinks 100) ⟨Buffer.empty.extend 8 (by decide), ()⟩
  obtain ⟨e, he⟩ := (single_ends_iff (s := ⟨⟨{}, [Buffer.empty.extend 8 (by decide)]⟩, ()⟩)
    hlease).mpr hcourse
  obtain ⟨hsingle, -⟩ := lease_returned_on_every_exit {}
    (s := ⟨⟨{}, [Buffer.empty.extend 8 (by decide)]⟩, ()⟩) hlease hsize
  obtain ⟨earlier, final, used, -, hreturned⟩ := hsingle _ _ e he
  exact ⟨hlease, hsize, e, he, final, used, hreturned⟩

end Session

end NativeResource

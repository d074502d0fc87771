import NativeResource.Pool.Custody
import NativeResource.Proofs.Pool.Refusal
/-!
Emptying a pool by requests for nothing. Every retained buffer is large enough, so each request is
served, without memory, with the first of the smallest: the buffers come out in the order of their
capacities, each as it was retained.
-/
namespace NativeResource

theorem Buffer.clear_of_length_eq_zero {b : Buffer} (h : b.length = 0) : b.clear = b := by
  cases b
  cases h
  rfl

namespace Pool

/-- The pools that come about by taking buffers out and handing buffers back, in any order. -/
inductive Reachable : Pool → Prop where
  | initial (limits : PoolLimits) : Reachable ⟨limits, []⟩
  | acquire {p : Pool} (alloc : Allocator) (n : Nat) :
      Reachable p → Reachable (p.acquire alloc n).2
  | release {p : Pool} (b : Buffer) : Reachable p → Reachable (p.release b).1

/-- Requests for nothing, one after another for as long as a buffer is retained, with what each of
them got. -/
inductive Drains (alloc : Allocator) : Pool → List (Except Failure Buffer) → Pool → Prop where
  | done {p : Pool} : p.slots = [] → Drains alloc p [] p
  | next {p rest final : Pool} {result : Except Failure Buffer}
      {results : List (Except Failure Buffer)} : p.slots ≠ [] →
      p.acquire alloc 0 = (result, rest) → Drains alloc rest results final →
      Drains alloc p (result :: results) final

variable {alloc : Allocator} {n : Nat} {p rest : Pool} {b : Buffer}

theorem mem_of_mem_acquire (h : b ∈ (p.acquire alloc n).2.slots) : b ∈ p.slots := by
  rcases acquire_cases alloc n p with ⟨-, hsame⟩ | ⟨i, -, hi, hremoved⟩
  · rwa [hsame] at h
  · rw [hremoved] at h
    exact List.mem_of_mem_eraseIdx ((swapRemove_perm_eraseIdx hi).mem_iff.mp h)

theorem mem_or_eq_of_mem_release {c : Buffer} (h : c ∈ (p.release b).1.slots) :
    c ∈ p.slots ∨ c = b.clear := by
  rw [release_fst] at h
  split at h
  · rcases List.mem_append.mp h with h | h
    · exact .inl h
    · exact .inr (List.mem_singleton.mp h)
  · exact .inl h

/-- Handing back resets the length, and a retained buffer is not touched again. -/
theorem Reachable.length_eq_zero (h : p.Reachable) : ∀ b ∈ p.slots, b.length = 0 := by
  induction h with
  | initial limits =>
    intro b hb
    cases hb
  | acquire alloc n _ ih =>
    intro b hb
    exact ih b (mem_of_mem_acquire hb)
  | release b _ ih =>
    intro c hc
    rcases mem_or_eq_of_mem_release hc with hc | rfl
    · exact ih c hc
    · exact b.length_clear

structure TakesLeast (p : Pool) (b : Buffer) (rest : Pool) : Prop where
  served : ∀ alloc, p.acquire alloc 0 = (.ok b, rest)
  perm : p.slots.Perm (b :: rest.slots)
  least : ∀ c ∈ p.slots, b.capacity ≤ c.capacity
  limits : rest.limits = p.limits

theorem exists_takesLeast (hclear : ∀ b ∈ p.slots, b.length = 0) (hne : p.slots ≠ []) :
    ∃ b rest, p.TakesLeast b rest := by
  obtain ⟨i, b, hselects, hacquire⟩ := exists_acquire_selects 0 hne
  have hslot := hselects.getElem?_eq
  refine ⟨b, { p with slots := swapRemove p.slots i }, ?_, perm_cons_swapRemove hslot, ?_, rfl⟩
  · intro alloc
    rw [hacquire, Buffer.clear_of_length_eq_zero (hclear b (List.mem_of_getElem? hslot)),
      Buffer.reserve_of_le (Nat.zero_le _)]
  · cases hselects with
    | fitting _ _ hleast _ =>
      intro c hc
      exact hleast c hc (Nat.zero_le _)
    | largest _ hshort _ _ =>
      exact absurd (hshort b (List.mem_of_getElem? hslot)) (Nat.not_lt_zero _)

/-- There is one way to drain a pool, since a request has one result. -/
theorem drains_iff_of_takesLeast (h : p.TakesLeast b rest) (hne : p.slots ≠ [])
    {results : List (Except Failure Buffer)} {final : Pool} :
    Drains alloc p results final ↔
      ∃ later, results = .ok b :: later ∧ Drains alloc rest later final := by
  constructor
  · intro hdrains
    cases hdrains with
    | done hnil => exact absurd hnil hne
    | next _ hacquire hlater =>
      cases (h.served alloc).symm.trans hacquire
      exact ⟨_, rfl, hlater⟩
  · rintro ⟨later, rfl, hlater⟩
    exact .next hne (h.served alloc) hlater

theorem drains_nil_iff (h : p.slots = []) {results : List (Except Failure Buffer)} {final : Pool} :
    Drains alloc p results final ↔ results = [] ∧ final = p := by
  constructor
  · intro hdrains
    cases hdrains with
    | done _ => exact ⟨rfl, rfl⟩
    | next hne _ _ => exact absurd h hne
  · rintro ⟨rfl, rfl⟩
    exact .done h

/-- The buffers that draining a pool hands out, one for each request, whatever memory there is. -/
structure DrainedInOrder (p : Pool) (out : List Buffer) : Prop where
  once : out.Perm p.slots
  steps : out.length = p.size
  ascending : out.Pairwise (·.capacity ≤ ·.capacity)
  drains_iff : ∀ alloc results final, Drains alloc p results final ↔
    results = out.map .ok ∧ final = ⟨p.limits, []⟩

theorem drainedInOrder_nil (h : p.slots = []) : p.DrainedInOrder [] := by
  refine ⟨h ▸ .nil, by rw [size, h], .nil, ?_⟩
  intro alloc results final
  obtain ⟨limits, slots⟩ := p
  cases h
  exact drains_nil_iff rfl

/-- The buffer taken first is the least of all, so it stands before what the rest hands out. -/
theorem DrainedInOrder.cons {out : List Buffer} (h : p.TakesLeast b rest) (hne : p.slots ≠ [])
    (hrest : rest.DrainedInOrder out) : p.DrainedInOrder (b :: out) := by
  have honce : (b :: out).Perm p.slots := (hrest.once.cons b).trans h.perm.symm
  refine ⟨honce, honce.length_eq, ?_, ?_⟩
  · refine List.pairwise_cons.mpr ⟨?_, hrest.ascending⟩
    intro c hc
    exact h.least c (honce.mem_iff.mp (List.mem_cons_of_mem b hc))
  · intro alloc results final
    rw [drains_iff_of_takesLeast h hne, List.map_cons, ← h.limits]
    constructor
    · rintro ⟨later, rfl, hlater⟩
      obtain ⟨rfl, hfinal⟩ := (hrest.drains_iff alloc later final).mp hlater
      exact ⟨rfl, hfinal⟩
    · rintro ⟨rfl, hfinal⟩
      exact ⟨_, rfl, (hrest.drains_iff alloc _ final).mpr ⟨rfl, hfinal⟩⟩

/-- By induction on how many buffers are retained; each request leaves one fewer. -/
theorem exists_drainedInOrder (hclear : ∀ b ∈ p.slots, b.length = 0) :
    ∃ out, p.DrainedInOrder out := by
  induction hsize : p.size generalizing p with
  | zero => exact ⟨[], drainedInOrder_nil (List.eq_nil_of_length_eq_zero hsize)⟩
  | succ k ih =>
    have hne : p.slots ≠ [] := List.ne_nil_of_length_eq_add_one hsize
    obtain ⟨b, rest, htakes⟩ := exists_takesLeast hclear hne
    have hlength : p.slots.length = rest.slots.length + 1 := htakes.perm.length_eq
    have hcleared : ∀ c ∈ rest.slots, c.length = 0 := by
      intro c hc
      exact hclear c (htakes.perm.mem_iff.mpr (List.mem_cons_of_mem b hc))
    have hrestSize : rest.size = k := by
      rw [size] at hsize ⊢
      omega
    obtain ⟨out, hout⟩ := ih hcleared hrestSize
    exact ⟨b :: out, hout.cons htakes hne⟩

theorem drainUpTo_of_drains {results : List (Except Failure Buffer)} {final : Pool}
    (h : Drains alloc p results final) :
    p.drainUpTo alloc results.length = (results.filterMap Except.toOption, final) := by
  induction h with
  | done _ => rfl
  | @next p rest _ result _ hne hacquire _ ih =>
    have hsize : p.size ≠ 0 := mt List.eq_nil_of_length_eq_zero hne
    rw [List.length_cons, drainUpTo, if_neg hsize, hacquire, List.filterMap_cons]
    cases result <;> simp only [ih, Except.toOption]

theorem DrainedInOrder.drain_eq {out : List Buffer} (h : p.DrainedInOrder out)
    (alloc : Allocator) : p.drain alloc = (out, ⟨p.limits, []⟩) := by
  have hdrains := (h.drains_iff alloc _ _).mpr ⟨rfl, rfl⟩
  have hdrained := drainUpTo_of_drains hdrains
  have hgot : (out.map (.ok : Buffer → Except Failure Buffer)).filterMap Except.toOption = out := by
    rw [List.filterMap_map]
    exact List.filterMap_some
  rwa [List.length_map, h.steps, hgot] at hdrained

/-- Draining a pool sorts it: the requests take as many steps as there are retained buffers, none
of them fails or allocates, and the buffers come out as they were retained, each once, none after a
larger one. -/
theorem draining_sorts (h : p.Reachable) :
    ∃ out, p.DrainedInOrder out ∧ ∀ alloc, p.drain alloc = (out, ⟨p.limits, []⟩) := by
  obtain ⟨out, hout⟩ := exists_drainedInOrder h.length_eq_zero
  exact ⟨out, hout, hout.drain_eq⟩

/-- Of two buffers handed back the smaller one comes out first, also where there is no memory. -/
theorem draining_sorts_two :
    ∃ p : Pool, p.Reachable ∧ p.slots.map Buffer.capacity = [16, 8] ∧
      ∃ out : List Buffer, out.map Buffer.capacity = [8, 16] ∧
        Drains ⟨fun _ => false⟩ p (out.map .ok) ⟨{}, []⟩ ∧
        p.drain ⟨fun _ => false⟩ = (out, ⟨{}, []⟩) := by
  have hlarge : (Buffer.empty.extend 16 (by decide)).capacity = 16 := by
    rw [Buffer.capacity_extend_empty]
    rfl
  have hsmall : (Buffer.empty.extend 8 (by decide)).capacity = 8 := by
    rw [Buffer.capacity_extend_empty]
    rfl
  have hfirst : (Pool.release (Buffer.empty.extend 16 (by decide)) ⟨{}, []⟩).1 =
      ⟨{}, [Buffer.empty.extend 16 (by decide)]⟩ := by
    rw [release_fst, hlarge]
    rfl
  have hsecond : (Pool.release (Buffer.empty.extend 8 (by decide))
      ⟨{}, [Buffer.empty.extend 16 (by decide)]⟩).1 =
      ⟨{}, [Buffer.empty.extend 16 (by decide), Buffer.empty.extend 8 (by decide)]⟩ := by
    rw [release_fst, hsmall]
    rfl
  have hreachable : Reachable
      ⟨{}, [Buffer.empty.extend 16 (by decide), Buffer.empty.extend 8 (by decide)]⟩ := by
    have hboth := ((Reachable.initial {}).release (Buffer.empty.extend 16 (by decide))).release
      (Buffer.empty.extend 8 (by decide))
    rwa [hfirst, hsecond] at hboth
  have hcapacities : [Buffer.empty.extend 16 (by decide), Buffer.empty.extend 8 (by decide)].map
      Buffer.capacity = [16, 8] := by
    rw [List.map_cons, List.map_singleton, hlarge, hsmall]
  obtain ⟨out, hout, hdrain⟩ := draining_sorts hreachable
  refine ⟨_, hreachable, hcapacities, out, ?_, (hout.drains_iff _ _ _).mpr ⟨rfl, rfl⟩, hdrain _⟩
  have hperm : (out.map Buffer.capacity).Perm [8, 16] := by
    refine (hout.once.map Buffer.capacity).trans ?_
    rw [hcapacities]
    exact .swap 8 16 []
  exact hperm.eq_of_pairwise (fun _ _ _ _ => Nat.le_antisymm)
    (List.pairwise_map.mpr hout.ascending) (by decide)

end Pool

end NativeResource

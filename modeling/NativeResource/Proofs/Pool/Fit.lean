import NativeResource.Proofs.Pool.Refusal
/-!
What a request is served with, and what is left. The best fit is handed out as it was retained; only
where none fits is something allocated, to grow the largest buffer or, for an empty pool, to make a
new one. The other slots keep their buffers, but for the last one, which closes the gap.
-/
namespace NativeResource

namespace Pool

variable {alloc : Allocator} {n i j : Nat} {p rest : Pool} {b c : Buffer}

theorem getElem?_swapRemove {α : Type} {xs : List α} (i : Nat) (h : j + 1 < xs.length) :
    (swapRemove xs i)[j]? = if j = i then xs.getLast? else xs[j]? := by
  cases hlast : xs.getLast? with
  | none =>
    rw [List.getLast?_eq_none_iff.mp hlast] at h
    cases h
  | some last =>
    have hkept : j < (xs.set i last).length - 1 := by
      rw [List.length_set]
      omega
    simp only [swapRemove, hlast]
    rw [List.getElem?_dropLast, if_pos hkept, List.getElem?_set]
    by_cases hj : j = i
    · subst hj
      rw [if_pos rfl, if_pos rfl, if_pos (by omega)]
    · rw [if_neg (Ne.symm hj), if_neg hj]

/-- A pool without one of its slots: the last buffer has moved there and the end is dropped. -/
structure LosesSlot (i : Nat) (p rest : Pool) : Prop where
  limits : rest.limits = p.limits
  size : rest.size + 1 = p.size
  moved : i < rest.size → rest.slots[i]? = p.slots.getLast?
  kept : ∀ j, j < rest.size → j ≠ i → rest.slots[j]? = p.slots[j]?

theorem losesSlot_swapRemove (h : p.slots[i]? = some b) :
    LosesSlot i p { p with slots := swapRemove p.slots i } := by
  have hi : i < p.size := (List.getElem?_eq_some_iff.mp h).1
  have hlength : (swapRemove p.slots i).length = p.size - 1 := length_swapRemove p.slots i
  have hread : ∀ j, j < (swapRemove p.slots i).length →
      (swapRemove p.slots i)[j]? = if j = i then p.slots.getLast? else p.slots[j]? := by
    intro j hj
    apply getElem?_swapRemove
    change j + 1 < p.size
    omega
  refine ⟨rfl, ?_, ?_, ?_⟩
  · change (swapRemove p.slots i).length + 1 = p.size
    omega
  · intro hlt
    exact (hread i hlt).trans (if_pos rfl)
  · intro j hlt hj
    exact (hread j hlt).trans (if_neg hj)

inductive HandsOut (n : Nat) (p : Pool) (b : Buffer) (rest : Pool) : Prop where
  /-- The first of the smallest buffers that are large enough, whatever memory there is. -/
  | fitting {i : Nat} {c : Buffer} : p.slots[i]? = some c → n ≤ c.capacity →
      (∀ d ∈ p.slots, n ≤ d.capacity → c.capacity ≤ d.capacity) →
      (∀ j d, j < i → p.slots[j]? = some d → d.capacity ≠ c.capacity) →
      b.bytes = c.bytes → b.length = 0 → (∀ alloc, p.acquire alloc n = (.ok b, rest)) →
      LosesSlot i p rest → HandsOut n p b rest
  /-- None is large enough: the last of the largest, grown. -/
  | grown {i : Nat} {c : Buffer} : p.slots[i]? = some c → (∀ d ∈ p.slots, d.capacity < n) →
      (∀ d ∈ p.slots, d.capacity ≤ c.capacity) →
      (∀ j d, i < j → p.slots[j]? = some d → d.capacity < c.capacity) →
      Buffer.Extends n c.clear b → LosesSlot i p rest → HandsOut n p b rest
  /-- None is retained: a new one. -/
  | made : p.slots = [] → Buffer.Extends n .empty b → rest = p → HandsOut n p b rest

/-- A request that does not fail gets the best fit of the retained buffers, and the others stay
retained. -/
theorem best_fit_handed_out (h : p.acquire alloc n = (.ok b, rest)) : HandsOut n p b rest := by
  by_cases hnil : p.slots = []
  · rw [acquire_of_nil hnil] at h
    obtain ⟨hnew, rfl⟩ := Prod.mk.inj h
    exact .made hnil (Buffer.extends_of_reserve hnew (Nat.zero_le _)) rfl
  · obtain ⟨i, c, hselects, hacquire⟩ := exists_acquire_selects n hnil
    rw [hacquire] at h
    obtain ⟨hreserve, rfl⟩ := Prod.mk.inj h
    cases hselects with
    | fitting hslot hroom hleast hfirst =>
      -- The room is there, so growing leaves the buffer alone under every allocator.
      have hready : ∀ other : Allocator, c.clear.reserve other n = .ok c.clear :=
        fun _ => Buffer.reserve_of_le hroom
      obtain rfl := Except.ok.inj ((hready alloc).symm.trans hreserve)
      refine .fitting hslot hroom hleast hfirst rfl rfl ?_ (losesSlot_swapRemove hslot)
      intro other
      rw [hacquire, hready]
    | largest hslot hshort hmost hlast =>
      have hc := hshort c (List.mem_of_getElem? hslot)
      refine .grown hslot hshort hmost ?_ ?_ (losesSlot_swapRemove hslot)
      · intro j d hj hd
        exact Nat.lt_of_le_of_ne (hmost d (List.mem_of_getElem? hd)) (hlast j d hj hd)
      · apply Buffer.extends_of_reserve hreserve
        exact Nat.le_trans (Nat.le_of_lt hc) (le_roundToWord n)

theorem best_fit_handed_out_grown :
    ∃ b rest, Pool.acquire ⟨fun _ => true⟩ 20
        ⟨{}, [Buffer.empty.extend 8 (by decide), Buffer.empty.extend 16 (by decide)]⟩ =
          (.ok b, rest) ∧
      b.capacity = 24 ∧ rest.slots = [Buffer.empty.extend 8 (by decide)] := by
  have hsmall : (Buffer.empty.extend 8 (by decide)).capacity = 8 := by
    rw [Buffer.capacity_extend_empty]
    rfl
  have hlarge : (Buffer.empty.extend 16 (by decide)).capacity = 16 := by
    rw [Buffer.capacity_extend_empty]
    rfl
  cases hacquire : Pool.acquire ⟨fun _ => true⟩ 20
      ⟨{}, [Buffer.empty.extend 8 (by decide), Buffer.empty.extend 16 (by decide)]⟩ with
  | mk result rest =>
    cases result with
    | error f =>
      obtain ⟨fault, hfault, -⟩ := fault_of_acquire_error hacquire
      cases hfault
    | ok b =>
      refine ⟨b, rest, rfl, ?_⟩
      cases best_fit_handed_out hacquire with
      | made hnil _ _ => cases hnil
      | @fitting i c hslot hroom _ _ _ _ _ _ =>
        rcases List.mem_pair.mp (List.mem_of_getElem? hslot) with rfl | rfl <;> omega
      | @grown i c hslot _ hmost _ hextends hloses =>
        refine ⟨hextends.capacity, ?_⟩
        have hle := hmost _ (List.mem_cons_of_mem _ List.mem_cons_self)
        have hsize : rest.slots.length = 1 := Nat.succ.inj hloses.size
        obtain ⟨d, hd⟩ := List.length_eq_one_iff.mp hsize
        rcases i with _ | i
        · cases hslot
          omega
        · have hkept := hloses.kept 0 (by rw [size, hsize]; exact Nat.one_pos) nofun
          rw [hd] at hkept ⊢
          cases hkept
          rfl

end Pool

end NativeResource

import NativeResource.Proofs.Buffer.History
import NativeResource.Proofs.Pool.Inventory
import NativeResource.Proofs.Pool.Selection
/-!
No buffer is lost, doubled or kept past the limits. Every call on a custody is a step of the
inventory that describes it: same result, same events, the same buffers in the slots and with the
holders afterwards.
-/
namespace NativeResource

namespace Custody

def Operation.perform : Operation → Action Custody (Except Failure (Option Buffer))
  | allocate alloc name n => do return (← Custody.allocate alloc name n).map some
  | request true alloc name n => do return (← Custody.lease alloc name n).map some
  | request false alloc name n => do return (← Custody.acquire alloc name n).map some
  | unwind alloc n change => do return (← Custody.unwind alloc n change).map fun _ => none
  | release name => do
    Custody.release name
    return .ok none
  | drop name => do
    Custody.drop name
    return .ok none
  | keep name => do
    Custody.keep name
    return .ok none
  | use name b => do
    Custody.update name b
    return .ok none

end Custody

namespace Pool

variable {alloc : Allocator} {n : Nat} {p : Pool}

theorem acquire_of_nil (h : p.slots = []) : p.acquire alloc n = (Buffer.new alloc n, p) := by
  have htake : p.take? n = none := by simp [take?, select?_eq_none_iff.mpr h]
  simp only [acquire, htake]

theorem le_capacity_of_acquire {b : Buffer} {rest : Pool}
    (h : p.acquire alloc n = (.ok b, rest)) : n ≤ b.capacity := by
  by_cases hnil : p.slots = []
  · rw [acquire_of_nil hnil] at h
    exact (Buffer.le_capacity_of_reserve (Prod.mk.inj h).1).2
  · obtain ⟨i, c, -, hacquire⟩ := exists_acquire_selects n hnil
    rw [hacquire] at h
    exact (Buffer.le_capacity_of_reserve (Prod.mk.inj h).1).2

theorem swapRemove_map {α β : Type} (f : α → β) (xs : List α) (i : Nat) :
    swapRemove (xs.map f) i = (swapRemove xs i).map f := by
  unfold swapRemove
  rw [List.getLast?_map]
  cases xs.getLast? with
  | none => rfl
  | some last =>
    simp only [Option.map_some]
    rw [List.map_dropLast, List.map_set]

theorem perm_cons_swapRemove {α : Type} {xs : List α} {i : Nat} {x : α} (h : xs[i]? = some x) :
    xs.Perm (x :: swapRemove xs i) := by
  obtain ⟨hi, rfl⟩ := List.getElem?_eq_some_iff.mp h
  exact (List.getElem_cons_eraseIdx_perm hi).symm.trans
    ((swapRemove_perm_eraseIdx hi).symm.cons _)

end Pool

namespace Inventory

open Custody (Operation)

/-- Without the numbers, the inventory is the custody. -/
structure Describes (r : Inventory) (c : Custody) : Prop where
  limits : c.pool.limits = r.limits
  slots : c.pool.slots = r.retained.map Prod.snd
  held : ∀ name, c.held.find? name = (r.held name).map Prod.snd

variable {r : Inventory} {c : Custody} {alloc : Allocator} {n : Nat} {name : String}

theorem Describes.initial (limits : PoolLimits) : Describes { limits } ⟨⟨limits, []⟩, []⟩ :=
  ⟨rfl, rfl, fun _ => rfl⟩

theorem Describes.size_eq (h : r.Describes c) : c.pool.size = r.retained.length := by
  rw [Pool.size, h.slots, List.length_map]

theorem Describes.giveNumber (h : r.Describes c) : r.giveNumber.Describes c :=
  ⟨h.limits, h.slots, h.held⟩

theorem Describes.handedBack (h : r.Describes c) (k : Nat) (b : Buffer) :
    ∃ r', HandedBack (k, b) r r' (c.pool.release b).2 ∧
      r'.Describes { c with pool := (c.pool.release b).1 } := by
  have hsize := h.size_eq
  have hlimits := h.limits
  unfold Pool.release
  by_cases hzero : b.capacity = 0
  · rw [if_pos hzero]
    exact ⟨r, .empty hzero, h⟩
  · rw [if_neg hzero]
    have hpos : 0 < b.capacity := Nat.pos_of_ne_zero hzero
    by_cases hlarge : c.pool.limits.maxPooledSize < b.capacity
    · rw [if_pos hlarge]
      rw [hlimits] at hlarge ⊢
      exact ⟨r, .oversized hlarge rfl rfl, h⟩
    · rw [if_neg hlarge]
      rw [hlimits] at hlarge
      by_cases hfree : c.pool.size < c.pool.limits.maxSlots
      · rw [if_pos hfree]
        rw [hlimits, hsize] at hfree
        refine ⟨_, .retained hpos (Nat.le_of_not_lt hlarge) hfree b.bytes_clear b.length_clear,
          hlimits, ?_, h.held⟩
        simp [h.slots]
      · rw [if_neg hfree]
        rw [hlimits, hsize] at hfree
        rw [hlimits]
        exact ⟨r, .surplus hpos (Nat.le_of_not_lt hlarge) (Nat.le_of_not_lt hfree) rfl rfl, h⟩

theorem Describes.letGo (h : r.Describes c) (x : Nat × Holding) :
    ∃ r', LetGo x r r' (Custody.letGo x.2 c).log ∧ r'.Describes (Custody.letGo x.2 c).state := by
  unfold Custody.letGo
  cases hleased : x.2.leased with
  | false => exact ⟨r, .owned hleased, h⟩
  | true =>
    obtain ⟨r', hb, hr⟩ := h.handedBack x.1 x.2.buffer
    exact ⟨r', .leased hleased hb, hr⟩

theorem Describes.insert (h : r.Describes c) (x : Nat × Holding) :
    (r.hold name x).Describes { c with held := c.held.insert name x.2 } := by
  refine ⟨h.limits, h.slots, ?_⟩
  intro other
  by_cases hname : other = name
  · subst hname
    simp [Inventory.hold]
  · simp only [Inventory.hold, Function.update_of_ne hname]
    rw [Table.find?_insert_of_ne _ _ hname]
    exact h.held other

theorem Describes.erase (h : r.Describes c) :
    (r.forget name).Describes { c with held := c.held.erase name } := by
  refine ⟨h.limits, h.slots, ?_⟩
  intro other
  by_cases hname : other = name
  · subst hname
    simp [Inventory.forget]
  · simp only [Inventory.forget, Function.update_of_ne hname]
    rw [Table.find?_erase_of_ne _ hname]
    exact h.held other

theorem Describes.find?_of_some (h : r.Describes c) {x : Nat × Holding}
    (hx : r.held name = some x) : c.held.find? name = some x.2 := by
  rw [h.held, hx]
  rfl

theorem Describes.find?_of_none (h : r.Describes c) (hx : r.held name = none) :
    c.held.find? name = none := by
  rw [h.held, hx]
  rfl

end Inventory

namespace Custody

variable {c : Custody} {name : String} {g old : Holding}

theorem hold_of_none (h : c.held.find? name = none) :
    hold name g c = ⟨(), { c with held := c.held.insert name g }, []⟩ := by
  simp only [hold, holding?, Action.bind_apply, Action.quiet, h]
  rfl

theorem hold_of_some (h : c.held.find? name = some old) :
    hold name g c = letGo old { c with held := c.held.insert name g } := by
  simp only [hold, holding?, Action.bind_apply, Action.quiet, h, List.nil_append]

end Custody

namespace Inventory

variable {r : Inventory} {c : Custody} {alloc : Allocator} {n : Nat} {name : String}

theorem Describes.placed (h : r.Describes c) (x : Nat × Holding) :
    ∃ r', Placed name x r r' (Custody.hold name x.2 c).log ∧
      r'.Describes (Custody.hold name x.2 c).state := by
  cases hold : r.held name with
  | none =>
    rw [Custody.hold_of_none (h.find?_of_none hold)]
    exact ⟨_, .free hold, h.insert x⟩
  | some old =>
    have hinsert : (r.hold name x).Describes _ := h.insert x
    obtain ⟨r', hl, hr⟩ := hinsert.letGo old
    rw [Custody.hold_of_some (h.find?_of_some hold)]
    exact ⟨r', .displacing hold hl, hr⟩

theorem Describes.acquire (h : r.Describes c) (alloc : Allocator) (n : Nat) :
    ∃ m, m.Describes { c with pool := (c.pool.acquire alloc n).2 } ∧
      match (c.pool.acquire alloc n).1 with
      | .ok b => ∃ k, TakenOut alloc n r (k, b) m
      | .error f => Refused alloc n r f m := by
  by_cases hnil : c.pool.slots = []
  · have hretained : r.retained = [] := List.map_eq_nil_iff.mp (h.slots.symm.trans hnil)
    rw [Pool.acquire_of_nil hnil]
    cases hnew : Buffer.new alloc n with
    | ok b =>
      have hroom := (Buffer.le_capacity_of_reserve hnew).2
      exact ⟨_, h.giveNumber, r.made, .made hretained hnew (Buffer.length_of_reserve hnew) hroom⟩
    | error f => exact ⟨r, h, .made hretained hnew⟩
  · obtain ⟨i, taken, hselects, hacquire⟩ := Pool.exists_acquire_selects n hnil
    rw [hacquire]
    have htaken := hselects.getElem?_eq
    rw [h.slots, List.getElem?_map] at htaken
    obtain ⟨⟨k, taken⟩, hslot, rfl⟩ := Option.map_eq_some_iff.mp htaken
    have hperm := Pool.perm_cons_swapRemove hslot
    refine ⟨{ r with retained := Pool.swapRemove r.retained i }, ?_, ?_⟩
    · refine ⟨h.limits, ?_, h.held⟩
      change Pool.swapRemove c.pool.slots i = _
      rw [h.slots, Pool.swapRemove_map]
    · cases hgrown : taken.clear.reserve alloc n with
      | ok b =>
        have hroom := (Buffer.le_capacity_of_reserve hgrown).2
        exact ⟨k, .reused hperm hgrown (Buffer.length_of_reserve hgrown) hroom
          fun i _ => Buffer.get_of_reserve hgrown i⟩
      | error f => exact .reused hperm hgrown

end Inventory

namespace Custody

section Perform

variable {c : Custody} {alloc : Allocator} {n : Nat} {name : String} {leased : Bool}
  {change : Buffer → Buffer} {b : Buffer} {f : Failure} {rest : Pool} {g : Holding}

theorem Operation.perform_allocate_of_ok (h : Buffer.new alloc n = .ok b) :
    (allocate alloc name n).perform c = ⟨.ok (some b), (hold name ⟨b, false⟩ c).state,
      (hold name ⟨b, false⟩ c).log⟩ := by
  simp [perform, Custody.allocate, h, holdResult, Action.bind_apply, Action.map_apply,
    Action.pure_apply, Except.map]

theorem Operation.perform_allocate_of_error (h : Buffer.new alloc n = .error f) :
    (allocate alloc name n).perform c = ⟨.error f, c, []⟩ := by
  simp [perform, Custody.allocate, h, holdResult, Action.bind_apply, Action.pure_apply, Except.map]

theorem Operation.perform_request_of_ok (h : c.pool.acquire alloc n = (.ok b, rest)) :
    (request leased alloc name n).perform c =
      ⟨.ok (some b), (hold name ⟨b, leased⟩ { c with pool := rest }).state,
        (hold name ⟨b, leased⟩ { c with pool := rest }).log⟩ := by
  cases leased <;>
    simp [perform, Custody.acquire, Custody.lease, takeOut, Action.quiet, h, holdResult,
      Action.bind_apply, Action.map_apply, Action.pure_apply, Except.map]

theorem Operation.perform_request_of_error (h : c.pool.acquire alloc n = (.error f, rest)) :
    (request leased alloc name n).perform c = ⟨.error f, { c with pool := rest }, []⟩ := by
  cases leased <;>
    simp [perform, Custody.acquire, Custody.lease, takeOut, Action.quiet, h, holdResult,
      Action.bind_apply, Action.pure_apply, Except.map]

theorem Operation.perform_unwind_of_ok (h : c.pool.acquire alloc n = (.ok b, rest)) :
    (unwind alloc n change).perform c =
      ⟨.ok none, { c with pool := (rest.release (change b)).1 }, (rest.release (change b)).2⟩ := by
  simp [perform, Custody.unwind, takeOut, giveBack, Action.quiet, h, Action.bind_apply,
    Action.map_apply, Action.pure_apply, Except.map]

theorem Operation.perform_unwind_of_error (h : c.pool.acquire alloc n = (.error f, rest)) :
    (unwind alloc n change).perform c = ⟨.error f, { c with pool := rest }, []⟩ := by
  simp [perform, Custody.unwind, takeOut, Action.quiet, h, Action.bind_apply,
    Action.pure_apply, Except.map]

theorem Operation.perform_release (h : c.held.find? name = some g) :
    (release name).perform c =
      ⟨.ok none, { pool := (c.pool.release g.buffer).1, held := c.held.erase name },
        (c.pool.release g.buffer).2⟩ := by
  simp [perform, Custody.release, holding?, forget, giveBack, Action.quiet, h, Action.bind_apply,
    Action.pure_apply]

theorem Operation.perform_drop (h : c.held.find? name = some g) :
    (drop name).perform c =
      ⟨.ok none, (letGo g { c with held := c.held.erase name }).state,
        (letGo g { c with held := c.held.erase name }).log⟩ := by
  simp [perform, Custody.drop, holding?, forget, Action.quiet, h, Action.bind_apply,
    Action.pure_apply]

/-- The buffer left in the place of the one that is kept has no allocation to hand back. -/
theorem Operation.perform_keep (h : c.held.find? name = some g) :
    (keep name).perform c =
      ⟨.ok none, { c with held := c.held.insert name ⟨g.buffer, false⟩ }, []⟩ := by
  cases hleased : g.leased <;>
    simp [perform, Custody.keep, holding?, letGo, giveBack, Pool.release, Action.quiet, h, hleased,
      Action.bind_apply, Action.pure_apply]

theorem Operation.perform_use (h : c.held.find? name = some g) :
    (use name b).perform c =
      ⟨.ok none, { c with held := c.held.insert name ⟨b, g.leased⟩ }, []⟩ := by
  simp [perform, Custody.update, holding?, Action.quiet, h, Action.bind_apply,
    Action.pure_apply]

theorem Operation.perform_of_none {op : Operation} (hop : op.holder? = some name)
    (h : c.held.find? name = none) : op.perform c = ⟨.ok none, c, []⟩ := by
  cases op with
  | release | drop | keep | use =>
    cases hop
    simp [perform, Custody.release, Custody.drop, Custody.keep, Custody.update, holding?,
      Action.quiet, h, Action.bind_apply, Action.pure_apply]
  | _ => cases hop

end Perform

end Custody

namespace Inventory

open Custody (Operation)

variable {r : Inventory} {c : Custody} {op : Operation}

/-- Every call on the custody is a step of the inventory. -/
theorem Describes.step (h : r.Describes c) (op : Operation) :
    ∃ r', Step r op (op.perform c).value r' (op.perform c).log ∧
      r'.Describes (op.perform c).state := by
  cases hop : op.holder? with
  | some name =>
    cases hheld : r.held name with
    | none =>
      rw [Operation.perform_of_none hop (h.find?_of_none hheld)]
      exact ⟨r, .absent hop hheld, h⟩
    | some x =>
      have hfind := h.find?_of_some hheld
      cases op with
      | release =>
        cases hop
        obtain ⟨r', hb, hr⟩ := h.erase.handedBack x.1 x.2.buffer
        rw [Operation.perform_release hfind]
        exact ⟨r', .released hheld hb, hr⟩
      | drop =>
        cases hop
        obtain ⟨r', hl, hr⟩ := h.erase.letGo x
        rw [Operation.perform_drop hfind]
        exact ⟨r', .dropped hheld hl, hr⟩
      | keep =>
        cases hop
        rw [Operation.perform_keep hfind]
        exact ⟨_, .kept hheld, h.insert _⟩
      | use name b =>
        cases hop
        rw [Operation.perform_use hfind]
        exact ⟨_, .used hheld, h.insert _⟩
      | _ => cases hop
  | none =>
    cases op with
    | allocate alloc name n =>
      cases hnew : Buffer.new alloc n with
      | ok b =>
        obtain ⟨r', hp, hr⟩ := h.giveNumber.placed (r.made, ⟨b, false⟩)
        rw [Operation.perform_allocate_of_ok hnew]
        exact ⟨r', .allocated hnew hp, hr⟩
      | error f =>
        rw [Operation.perform_allocate_of_error hnew]
        exact ⟨r, .unallocated hnew, h⟩
    | request leased alloc name n =>
      obtain ⟨m, hm, hresult⟩ := h.acquire alloc n
      cases hacquire : c.pool.acquire alloc n with
      | mk result rest =>
        rw [hacquire] at hm hresult
        cases result with
        | ok b =>
          obtain ⟨k, htaken⟩ := hresult
          obtain ⟨r', hp, hr⟩ := hm.placed (k, ⟨b, leased⟩)
          rw [Operation.perform_request_of_ok hacquire]
          exact ⟨r', .served htaken hp, hr⟩
        | error f =>
          rw [Operation.perform_request_of_error hacquire]
          exact ⟨m, .refused hresult, hm⟩
    | unwind alloc n change =>
      obtain ⟨m, hm, hresult⟩ := h.acquire alloc n
      cases hacquire : c.pool.acquire alloc n with
      | mk result rest =>
        rw [hacquire] at hm hresult
        cases result with
        | ok b =>
          obtain ⟨k, htaken⟩ := hresult
          obtain ⟨r', hb, hr⟩ := hm.handedBack k (change b)
          rw [Operation.perform_unwind_of_ok hacquire]
          exact ⟨r', .unwound htaken hb, hr⟩
        | error f =>
          rw [Operation.perform_unwind_of_error hacquire]
          exact ⟨m, .unleased hresult, hm⟩
    | _ => cases hop

structure Accounts (limits : PoolLimits) (r : Inventory) (c : Custody) : Prop where
  describes : r.Describes c
  invariant : r.Invariant
  limits_eq : r.limits = limits

/-- At every point of the calls there is an inventory that accounts for the custody, and between
two points it takes a step of the call, with the call's result and events. -/
inductive Conserved (limits : PoolLimits) : Inventory → Custody → List Operation → Prop where
  | done {r : Inventory} {c : Custody} : r.Accounts limits c → Conserved limits r c []
  | next {r m : Inventory} {c : Custody} {op : Operation} {ops : List Operation} :
      r.Accounts limits c → Step r op (op.perform c).value m (op.perform c).log →
      Conserved limits m (op.perform c).state ops → Conserved limits r c (op :: ops)

theorem Accounts.step {limits : PoolLimits} (h : r.Accounts limits c) (op : Operation) :
    ∃ m, Step r op (op.perform c).value m (op.perform c).log ∧
      m.Accounts limits (op.perform c).state := by
  obtain ⟨m, hstep, hm⟩ := h.describes.step op
  exact ⟨m, hstep, hm, step_preserves_invariant h.invariant hstep,
    hstep.limits_eq.trans h.limits_eq⟩

theorem Accounts.conserved {limits : PoolLimits} (h : r.Accounts limits c)
    (ops : List Operation) : Conserved limits r c ops := by
  induction ops generalizing r c with
  | nil => exact .done h
  | cons op ops ih =>
    obtain ⟨m, hstep, hm⟩ := h.step op
    exact .next h hstep (ih hm)

/-- From an empty pool on, whatever the calls are, each of them takes buffers out, puts them under
names and hands them back as the steps of the inventory say; at every point the pool is within
its limits, and every buffer is in at most one place. -/
theorem buffers_conserved_over_every_run (limits : PoolLimits) (ops : List Operation) :
    Conserved limits { limits } ⟨⟨limits, []⟩, []⟩ ops := by
  have hstart : Accounts limits { limits } ⟨⟨limits, []⟩, []⟩ :=
    ⟨.initial limits, initial_invariant limits, rfl⟩
  exact hstart.conserved ops

end Inventory

end NativeResource

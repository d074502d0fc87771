import Mathlib.Data.List.Nodup
import Mathlib.Logic.Function.Basic
import NativeResource.Pool.Custody
/-!
The buffers of a pool and of its users, by number. A buffer gets its number when it is made and
keeps it through every growth, use and return, so a number tells where a buffer is: in one slot,
with one holder, or freed. What each call may do is said by steps on this inventory; every run of
steps keeps the limits of the pool and gives no number to two places.
-/
namespace NativeResource

namespace Custody

/-- One call on a custody. A request is for a lease or for an owned buffer; a holder may put
any contents in the place of those it holds. -/
inductive Operation where
  | allocate (alloc : Allocator) (name : String) (n : Nat)
  | request (leased : Bool) (alloc : Allocator) (name : String) (n : Nat)
  | unwind (alloc : Allocator) (n : Nat) (use : Buffer → Buffer)
  | release (name : String)
  | drop (name : String)
  | keep (name : String)
  | use (name : String) (b : Buffer)

def Operation.holder? : Operation → Option String
  | release name | drop name | keep name | use name _ => some name
  | _ => none

end Custody

structure Inventory where
  limits : PoolLimits
  /-- The retained buffers, slot by slot. -/
  retained : List (Nat × Buffer) := []
  held : String → Option (Nat × Holding) := fun _ => none
  /-- How many numbers have been given. -/
  made : Nat := 0

namespace Inventory

def hold (name : String) (x : Nat × Holding) (r : Inventory) : Inventory :=
  { r with held := Function.update r.held name (some x) }

def forget (name : String) (r : Inventory) : Inventory :=
  { r with held := Function.update r.held name none }

def giveNumber (r : Inventory) : Inventory := { r with made := r.made + 1 }

/-- What becomes of a buffer that is handed back: it takes the last slot, emptied, or is freed. -/
inductive HandedBack (x : Nat × Buffer) (r : Inventory) : Inventory → List Event → Prop where
  | empty : x.2.capacity = 0 → HandedBack x r r []
  | oversized {e : Event} : r.limits.maxPooledSize < x.2.capacity →
      e.message = "dropping oversized buffer" →
      e.fields = [("capacity", toString x.2.capacity),
        ("limit", toString r.limits.maxPooledSize)] → HandedBack x r r [e]
  | surplus {e : Event} : 0 < x.2.capacity → x.2.capacity ≤ r.limits.maxPooledSize →
      r.limits.maxSlots ≤ r.retained.length → e.message = "pool full; dropping buffer" →
      e.fields = [("capacity", toString x.2.capacity),
        ("slots", toString r.limits.maxSlots)] → HandedBack x r r [e]
  | retained {b : Buffer} : 0 < x.2.capacity → x.2.capacity ≤ r.limits.maxPooledSize →
      r.retained.length < r.limits.maxSlots → b.bytes = x.2.bytes → b.length = 0 →
      HandedBack x r { r with retained := r.retained ++ [(x.1, b)] } []

/-- What a request for `n` bytes takes out: one of the retained buffers, with its contents at the
start, or a new one if none is retained. -/
inductive TakenOut (alloc : Allocator) (n : Nat) (r : Inventory) :
    Nat × Buffer → Inventory → Prop where
  | reused {k : Nat} {taken b : Buffer} {rest : List (Nat × Buffer)} :
      r.retained.Perm ((k, taken) :: rest) → taken.clear.reserve alloc n = .ok b →
      b.length = 0 → n ≤ b.capacity → (∀ i < taken.capacity,
        Bytes.get b.bytes i = Bytes.get taken.bytes i) →
      TakenOut alloc n r (k, b) { r with retained := rest }
  | made {b : Buffer} : r.retained = [] → Buffer.new alloc n = .ok b → b.length = 0 →
      n ≤ b.capacity → TakenOut alloc n r (r.made, b) r.giveNumber

inductive Refused (alloc : Allocator) (n : Nat) (r : Inventory) (f : Failure) :
    Inventory → Prop where
  | reused {k : Nat} {taken : Buffer} {rest : List (Nat × Buffer)} :
      r.retained.Perm ((k, taken) :: rest) → taken.clear.reserve alloc n = .error f →
      Refused alloc n r f { r with retained := rest }
  | made : r.retained = [] → Buffer.new alloc n = .error f → Refused alloc n r f r

inductive LetGo (x : Nat × Holding) (r : Inventory) : Inventory → List Event → Prop where
  | owned : x.2.leased = false → LetGo x r r []
  | leased {r' : Inventory} {log : List Event} : x.2.leased = true →
      HandedBack (x.1, x.2.buffer) r r' log → LetGo x r r' log

inductive Placed (name : String) (x : Nat × Holding) (r : Inventory) :
    Inventory → List Event → Prop where
  | free : r.held name = none → Placed name x r (r.hold name x) []
  | displacing {old : Nat × Holding} {r' : Inventory} {log : List Event} :
      r.held name = some old → LetGo old (r.hold name x) r' log → Placed name x r r' log

open Custody (Operation)

/-- What a call may do, with its result: the buffer handed out, if one was. -/
inductive Step (r : Inventory) : Operation → Except Failure (Option Buffer) → Inventory →
    List Event → Prop where
  | allocated {alloc : Allocator} {name : String} {n : Nat} {b : Buffer} {r' : Inventory}
      {log : List Event} : Buffer.new alloc n = .ok b →
      Placed name (r.made, ⟨b, false⟩) r.giveNumber r' log →
      Step r (.allocate alloc name n) (.ok (some b)) r' log
  | unallocated {alloc : Allocator} {name : String} {n : Nat} {f : Failure} :
      Buffer.new alloc n = .error f → Step r (.allocate alloc name n) (.error f) r []
  | served {leased : Bool} {alloc : Allocator} {name : String} {n k : Nat} {b : Buffer}
      {m r' : Inventory} {log : List Event} : TakenOut alloc n r (k, b) m →
      Placed name (k, ⟨b, leased⟩) m r' log →
      Step r (.request leased alloc name n) (.ok (some b)) r' log
  | refused {leased : Bool} {alloc : Allocator} {name : String} {n : Nat} {f : Failure}
      {r' : Inventory} : Refused alloc n r f r' →
      Step r (.request leased alloc name n) (.error f) r' []
  | unwound {alloc : Allocator} {n k : Nat} {use : Buffer → Buffer} {b : Buffer}
      {m r' : Inventory} {log : List Event} : TakenOut alloc n r (k, b) m →
      HandedBack (k, use b) m r' log → Step r (.unwind alloc n use) (.ok none) r' log
  | unleased {alloc : Allocator} {n : Nat} {use : Buffer → Buffer} {f : Failure}
      {r' : Inventory} : Refused alloc n r f r' → Step r (.unwind alloc n use) (.error f) r' []
  | released {name : String} {x : Nat × Holding} {r' : Inventory} {log : List Event} :
      r.held name = some x → HandedBack (x.1, x.2.buffer) (r.forget name) r' log →
      Step r (.release name) (.ok none) r' log
  | dropped {name : String} {x : Nat × Holding} {r' : Inventory} {log : List Event} :
      r.held name = some x → LetGo x (r.forget name) r' log →
      Step r (.drop name) (.ok none) r' log
  | kept {name : String} {x : Nat × Holding} : r.held name = some x →
      Step r (.keep name) (.ok none) (r.hold name (x.1, ⟨x.2.buffer, false⟩)) []
  | used {name : String} {x : Nat × Holding} {b : Buffer} : r.held name = some x →
      Step r (.use name b) (.ok none) (r.hold name (x.1, ⟨b, x.2.leased⟩)) []
  | absent {op : Operation} {name : String} : op.holder? = some name → r.held name = none →
      Step r op (.ok none) r []

/-- The pool is within its limits, and no number is in two places. -/
structure Invariant (r : Inventory) : Prop where
  size_le : r.retained.length ≤ r.limits.maxSlots
  fits : ∀ x ∈ r.retained,
    0 < x.2.capacity ∧ x.2.capacity ≤ r.limits.maxPooledSize ∧ x.2.length = 0
  retained_once : (r.retained.map Prod.fst).Nodup
  held_once : ∀ i j x y, r.held i = some x → r.held j = some y → x.1 = y.1 → i = j
  apart : ∀ i x, r.held i = some x → x.1 ∉ r.retained.map Prod.fst
  retained_lt : ∀ k ∈ r.retained.map Prod.fst, k < r.made
  held_lt : ∀ i x, r.held i = some x → x.1 < r.made

/-- The number was given and is in no place: its buffer is on its way, or freed. -/
structure InTransit (k : Nat) (r : Inventory) : Prop where
  lt : k < r.made
  not_retained : k ∉ r.retained.map Prod.fst
  not_held : ∀ i x, r.held i = some x → x.1 ≠ k

variable {r r' m : Inventory} {k n : Nat} {x : Nat × Buffer} {name : String} {log : List Event}
  {alloc : Allocator}

theorem TakenOut.limits_eq (h : TakenOut alloc n r x m) : m.limits = r.limits := by
  cases h <;> rfl

theorem Refused.limits_eq {f : Failure} (h : Refused alloc n r f m) : m.limits = r.limits := by
  cases h <;> rfl

theorem HandedBack.limits_eq (h : HandedBack x r r' log) : r'.limits = r.limits := by
  cases h <;> rfl

theorem LetGo.limits_eq {y : Nat × Holding} (h : LetGo y r r' log) : r'.limits = r.limits := by
  cases h with
  | owned _ => rfl
  | leased _ hb => exact hb.limits_eq

theorem Placed.limits_eq {y : Nat × Holding} (h : Placed name y r r' log) :
    r'.limits = r.limits := by
  cases h with
  | free _ => rfl
  | displacing _ hl => exact hl.limits_eq

theorem Step.limits_eq {op : Operation} {result : Except Failure (Option Buffer)}
    (h : Step r op result r' log) : r'.limits = r.limits := by
  cases h with
  | allocated _ hp => exact hp.limits_eq
  | served ht hp => exact hp.limits_eq.trans ht.limits_eq
  | unwound ht hb => exact hb.limits_eq.trans ht.limits_eq
  | refused hr | unleased hr => exact hr.limits_eq
  | released _ hb => exact hb.limits_eq
  | dropped _ hl => exact hl.limits_eq
  | unallocated _ | kept _ | used _ | absent _ _ => rfl

theorem initial_invariant (limits : PoolLimits) : Invariant { limits } := by
  constructor
  · exact Nat.zero_le _
  · intro x hx
    cases hx
  · exact List.nodup_nil
  · intro i j x y hx
    cases hx
  · intro i x hx
    cases hx
  · intro k hk
    cases hk
  · intro i x hx
    cases hx

theorem Invariant.giveNumber (h : Invariant r) :
    Invariant r.giveNumber ∧ InTransit r.made r.giveNumber := by
  constructor
  · refine ⟨h.size_le, h.fits, h.retained_once, h.held_once, h.apart, ?_, ?_⟩
    · intro k hk
      exact Nat.lt_succ_of_lt (h.retained_lt k hk)
    · intro i x hx
      exact Nat.lt_succ_of_lt (h.held_lt i x hx)
  · refine ⟨Nat.lt_succ_self _, ?_, ?_⟩
    · intro hk
      exact Nat.lt_irrefl _ (h.retained_lt _ hk)
    · intro i x hx hk
      have := h.held_lt i x hx
      omega

theorem Invariant.takeSlot (h : Invariant r) {taken : Buffer} {rest : List (Nat × Buffer)}
    (hperm : r.retained.Perm ((k, taken) :: rest)) :
    Invariant { r with retained := rest } ∧ InTransit k { r with retained := rest } := by
  have hnumbers : (r.retained.map Prod.fst).Perm (k :: rest.map Prod.fst) := hperm.map Prod.fst
  have hsub : ∀ j ∈ rest.map Prod.fst, j ∈ r.retained.map Prod.fst := by
    intro j hj
    exact hnumbers.mem_iff.mpr (List.mem_cons_of_mem k hj)
  have hk : k ∈ r.retained.map Prod.fst := hnumbers.mem_iff.mpr List.mem_cons_self
  obtain ⟨honce, hrest⟩ := List.nodup_cons.mp (hnumbers.nodup_iff.mp h.retained_once)
  constructor
  · refine ⟨?_, ?_, hrest, h.held_once, ?_, ?_, h.held_lt⟩
    · have hlength := hperm.length_eq
      have hsize := h.size_le
      rw [List.length_cons] at hlength
      change rest.length ≤ r.limits.maxSlots
      omega
    · intro x hx
      exact h.fits x (hperm.mem_iff.mpr (List.mem_cons_of_mem _ hx))
    · intro i x hx hmem
      exact h.apart i x hx (hsub _ hmem)
    · intro j hj
      exact h.retained_lt j (hsub j hj)
  · refine ⟨h.retained_lt k hk, honce, ?_⟩
    intro i x hx heq
    exact h.apart i x hx (heq ▸ hk)

theorem Invariant.takenOut (h : Invariant r) (ht : TakenOut alloc n r x m) :
    Invariant m ∧ InTransit x.1 m := by
  cases ht with
  | reused hperm _ _ _ _ => exact h.takeSlot hperm
  | made _ _ _ _ => exact h.giveNumber

theorem Invariant.refused (h : Invariant r) {f : Failure} (hr : Refused alloc n r f r') :
    Invariant r' := by
  cases hr with
  | reused hperm _ => exact (h.takeSlot hperm).1
  | made _ _ => exact h

theorem Invariant.handedBack (h : Invariant r) {b : Buffer} (hk : InTransit k r)
    (hb : HandedBack (k, b) r r' log) : Invariant r' := by
  cases hb with
  | empty _ | oversized _ _ _ | surplus _ _ _ _ _ => exact h
  | @retained c hpos hlarge hfree hbytes hlength =>
    have hcapacity : c.capacity = b.capacity := congrArg ByteArray.size hbytes
    refine ⟨?_, ?_, ?_, h.held_once, ?_, ?_, h.held_lt⟩
    · rw [List.length_append, List.length_singleton]
      exact hfree
    · intro y hy
      rcases List.mem_append.mp hy with hy | hy
      · exact h.fits y hy
      · rcases List.mem_singleton.mp hy with rfl
        change 0 < c.capacity ∧ c.capacity ≤ r.limits.maxPooledSize ∧ c.length = 0
        rw [hcapacity]
        exact ⟨hpos, hlarge, hlength⟩
    · rw [List.map_append, List.map_singleton, List.nodup_append_comm, List.singleton_append,
        List.nodup_cons]
      exact ⟨hk.not_retained, h.retained_once⟩
    · intro i y hy hmem
      rw [List.map_append, List.map_singleton, List.mem_append, List.mem_singleton] at hmem
      rcases hmem with hmem | heq
      · exact h.apart i y hy hmem
      · exact hk.not_held i y hy heq
    · intro j hj
      rw [List.map_append, List.map_singleton, List.mem_append, List.mem_singleton] at hj
      rcases hj with hj | rfl
      · exact h.retained_lt j hj
      · exact hk.lt

theorem Invariant.letGo (h : Invariant r) {y : Nat × Holding} (hy : InTransit y.1 r)
    (hl : LetGo y r r' log) : Invariant r' := by
  cases hl with
  | owned _ => exact h
  | leased _ hb => exact h.handedBack hy hb

theorem Invariant.hold (h : Invariant r) {y : Nat × Holding} (hy : InTransit y.1 r) :
    Invariant (r.hold name y) := by
  refine ⟨h.size_le, h.fits, h.retained_once, ?_, ?_, h.retained_lt, ?_⟩
  · intro i j u v hu hv heq
    by_cases hi : i = name
    · by_cases hj : j = name
      · rw [hi, hj]
      · simp only [Inventory.hold, hi, Function.update_self, Option.some.injEq] at hu
        simp only [Inventory.hold, Function.update_of_ne hj] at hv
        subst hu
        exact absurd heq.symm (hy.not_held j v hv)
    · simp only [Inventory.hold, Function.update_of_ne hi] at hu
      by_cases hj : j = name
      · simp only [Inventory.hold, hj, Function.update_self, Option.some.injEq] at hv
        subst hv
        exact absurd heq (hy.not_held i u hu)
      · simp only [Inventory.hold, Function.update_of_ne hj] at hv
        exact h.held_once i j u v hu hv heq
  · intro i u hu
    by_cases hi : i = name
    · simp only [Inventory.hold, hi, Function.update_self, Option.some.injEq] at hu
      subst hu
      exact hy.not_retained
    · simp only [Inventory.hold, Function.update_of_ne hi] at hu
      exact h.apart i u hu
  · intro i u hu
    by_cases hi : i = name
    · simp only [Inventory.hold, hi, Function.update_self, Option.some.injEq] at hu
      subst hu
      exact hy.lt
    · simp only [Inventory.hold, Function.update_of_ne hi] at hu
      exact h.held_lt i u hu

theorem Invariant.inTransit_of_hold (h : Invariant r) {old y : Nat × Holding}
    (hold : r.held name = some old) (hy : InTransit y.1 r) : InTransit old.1 (r.hold name y) := by
  refine ⟨h.held_lt name old hold, h.apart name old hold, ?_⟩
  intro i u hu heq
  by_cases hi : i = name
  · simp only [Inventory.hold, hi, Function.update_self, Option.some.injEq] at hu
    subst hu
    exact hy.not_held name old hold heq.symm
  · simp only [Inventory.hold, Function.update_of_ne hi] at hu
    exact hi (h.held_once i name u old hu hold heq)

theorem Invariant.forget (h : Invariant r) {y : Nat × Holding} (hy : r.held name = some y) :
    Invariant (r.forget name) ∧ InTransit y.1 (r.forget name) := by
  have hkept : ∀ i u, (r.forget name).held i = some u → i ≠ name ∧ r.held i = some u := by
    intro i u hu
    by_cases hi : i = name
    · simp only [Inventory.forget, hi, Function.update_self] at hu
      cases hu
    · simp only [Inventory.forget, Function.update_of_ne hi] at hu
      exact ⟨hi, hu⟩
  constructor
  · refine ⟨h.size_le, h.fits, h.retained_once, ?_, ?_, h.retained_lt, ?_⟩
    · intro i j u v hu hv
      exact h.held_once i j u v (hkept i u hu).2 (hkept j v hv).2
    · intro i u hu
      exact h.apart i u (hkept i u hu).2
    · intro i u hu
      exact h.held_lt i u (hkept i u hu).2
  · refine ⟨h.held_lt name y hy, h.apart name y hy, ?_⟩
    intro i u hu heq
    obtain ⟨hi, hheld⟩ := hkept i u hu
    exact hi (h.held_once i name u y hheld hy heq)

theorem Invariant.change (h : Invariant r) {y : Nat × Holding} (hy : r.held name = some y)
    (g : Holding) : Invariant (r.hold name (y.1, g)) := by
  obtain ⟨hforget, htransit⟩ := h.forget hy
  have hsame : (r.forget name).hold name (y.1, g) = r.hold name (y.1, g) := by
    simp only [Inventory.hold, Inventory.forget, Function.update_idem]
  have hheld : Invariant ((r.forget name).hold name (y.1, g)) := hforget.hold htransit
  rwa [hsame] at hheld

theorem Invariant.placed (h : Invariant r) {y : Nat × Holding} (hy : InTransit y.1 r)
    (hp : Placed name y r r' log) : Invariant r' := by
  cases hp with
  | free _ => exact h.hold hy
  | displacing hold hl => exact (h.hold hy).letGo (h.inTransit_of_hold hold hy) hl

theorem step_preserves_invariant {op : Operation} {result : Except Failure (Option Buffer)}
    (h : Invariant r) (hstep : Step r op result r' log) : Invariant r' := by
  cases hstep with
  | allocated _ hp =>
    obtain ⟨hgiven, htransit⟩ := h.giveNumber
    exact hgiven.placed htransit hp
  | served ht hp =>
    obtain ⟨htaken, htransit⟩ := h.takenOut ht
    exact htaken.placed htransit hp
  | unwound ht hb =>
    obtain ⟨htaken, htransit⟩ := h.takenOut ht
    exact htaken.handedBack htransit hb
  | refused hr | unleased hr => exact h.refused hr
  | released hx hb =>
    obtain ⟨hforget, htransit⟩ := h.forget hx
    exact hforget.handedBack htransit hb
  | dropped hx hl =>
    obtain ⟨hforget, htransit⟩ := h.forget hx
    exact hforget.letGo htransit hl
  | kept hx | used hx => exact h.change hx _
  | unallocated _ | absent _ _ => exact h

end Inventory

end NativeResource

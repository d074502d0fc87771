import Mathlib.Data.List.Basic
import NativeResource.Proofs.Pool.Exchange
import NativeResource.Proofs.Sizing.Agreement
/-!
The log of a run as an account of it. Every attempt that found its buffer too small is there with
the growth that followed, if the ceiling did not refuse it; then how the attempts ended, if they did
so with a refusal or a failed call; then, for an enumeration, how many items it has; and then the
buffer, if it has an allocation that the pool does not retain. So the capacities that the attempts
had can be told from the log.
-/
namespace NativeResource

variable {σ α β : Type} {p : SizingPolicy} {alloc : Allocator} {call : Call σ}

def Call.Silent (call : Call σ) : Prop := ∀ u, (call u).log = []

def Decoder.Silent (decode : Decoder σ α) : Prop := ∀ b n s, (decode b n s).log = []

theorem Decoder.Silent.log_eq {decode : Decoder σ α} (h : decode.Silent) {b : Buffer} {n : Nat}
    {s t : σ} {outcome : Outcome α} {log : List Event}
    (hd : decode b n s = ⟨outcome, t, log⟩) : log = [] := by
  rw [← h b n s, hd]

def Call.KeepsCapacity (call : Call σ) : Prop :=
  ∀ u, (call u).state.buffer.capacity = u.buffer.capacity

def Attempt.Completes (x : Attempt σ) : Prop :=
  ∃ a, x.answer = some a ∧ a.code.signal = .success ∧ a.size ≤ x.left.buffer.capacity

namespace SizingPolicy

/-- The growth that is announced after an attempt: one that the ceiling does not refuse. -/
def growing? (p : SizingPolicy) (x : Attempt σ) : Option Event :=
  match x.answer with
  | none => none
  | some a =>
    if a.code.signal = .insufficientBuffer then
      (p.target? x.left.buffer.capacity a.size).map fun target =>
        .growing x.left.buffer.capacity target a.size
    else none

/-- How the attempts for a call are announced to have ended: refused by the ceiling, or with a
failure of the call. Any other end is not announced. -/
def closing? (p : SizingPolicy) (x : Attempt σ) : Option Event :=
  match x.answer with
  | none => none
  | some a =>
    match a.code.signal with
    | .insufficientBuffer =>
      if p.ceiling ≤ x.left.buffer.capacity ∨ p.ceiling < a.size then
        some (.ceilingReached x.left.buffer.capacity a.size p.ceiling)
      else none
    | .failure => some (.callFailed a.code)
    | .success | .moreEntries | .noMoreEntries => none

section Events

variable {x : Attempt σ} {a : Answer} {b : Buffer} {target : Nat}

theorem growing?_of_target (ha : x.answer = some a) (hs : a.code.signal = .insufficientBuffer)
    (ht : p.target? x.left.buffer.capacity a.size = some target) :
    p.growing? x = some (.growing x.left.buffer.capacity target a.size) := by
  simp only [growing?, ha, if_pos hs, ht, Option.map_some]

theorem growing?_of_signal (ha : x.answer = some a) (hs : a.code.signal ≠ .insufficientBuffer) :
    p.growing? x = none := by
  simp only [growing?, ha, if_neg hs]

theorem growing?_eq_some_iff {event : Event} :
    p.growing? x = some event ↔ ∃ a target, x.answer = some a ∧
      a.code.signal = .insufficientBuffer ∧
      p.target? x.left.buffer.capacity a.size = some target ∧
      event = .growing x.left.buffer.capacity target a.size := by
  constructor
  · intro h
    cases ha : x.answer with
    | none => simp [growing?, ha] at h
    | some a =>
      by_cases hs : a.code.signal = .insufficientBuffer
      · simp only [growing?, ha, if_pos hs] at h
        obtain ⟨target, ht, rfl⟩ := Option.map_eq_some_iff.mp h
        exact ⟨a, target, rfl, hs, ht, rfl⟩
      · rw [growing?_of_signal ha hs] at h
        cases h
  · rintro ⟨a, target, ha, hs, ht, rfl⟩
    exact growing?_of_target ha hs ht

theorem isSome_growing?_iff : (p.growing? x).isSome ↔ ∃ a, x.answer = some a ∧
    a.code.signal = .insufficientBuffer ∧
    ¬ (p.ceiling ≤ x.left.buffer.capacity ∨ p.ceiling < a.size) := by
  rw [Option.isSome_iff_exists]
  constructor
  · rintro ⟨event, h⟩
    obtain ⟨a, target, ha, hs, ht, -⟩ := growing?_eq_some_iff.mp h
    refine ⟨a, ha, hs, fun hrefused => ?_⟩
    rw [(target?_eq_none_iff p a.size x.left.buffer.capacity_le).mpr hrefused] at ht
    cases ht
  · rintro ⟨a, ha, hs, hn⟩
    cases ht : p.target? x.left.buffer.capacity a.size with
    | none => exact absurd ((target?_eq_none_iff p a.size x.left.buffer.capacity_le).mp ht) hn
    | some target => exact ⟨_, growing?_of_target ha hs ht⟩

theorem closing?_eq_some_iff {event : Event} :
    p.closing? x = some event ↔ ∃ a, x.answer = some a ∧
      (a.code.signal = .insufficientBuffer ∧
          (p.ceiling ≤ x.left.buffer.capacity ∨ p.ceiling < a.size) ∧
          event = .ceilingReached x.left.buffer.capacity a.size p.ceiling ∨
        a.code.signal = .failure ∧ event = .callFailed a.code) := by
  cases ha : x.answer with
  | none => simp [closing?, ha]
  | some a =>
    cases hs : a.code.signal <;> simp [closing?, ha, hs, eq_comm]

theorem log_conclude (p : SizingPolicy) (alloc : Allocator) (x : Attempt σ) :
    (p.conclude alloc x).log = x.log ++ ((p.growing? x).toList ++ (p.closing? x).toList) := by
  cases ha : x.answer with
  | none => simp [conclude, growing?, closing?, ha]
  | some a =>
    cases hs : a.code.signal with
    | insufficientBuffer =>
      have hlog : (p.conclude alloc x).log = x.log ++ (p.grow alloc a x.left.buffer).log := by
        cases hg : (p.grow alloc a x.left.buffer).result with
        | ok b => rw [conclude_of_grow ha hs hg]
        | error f => rw [conclude_of_grow_error ha hs hg]
      rw [hlog]
      cases ht : p.target? x.left.buffer.capacity a.size with
      | none =>
        have hrefused := (target?_eq_none_iff p a.size x.left.buffer.capacity_le).mp ht
        simp [grow, growing?, closing?, ha, hs, ht, hrefused]
      | some target =>
        have hgoes : ¬ (p.ceiling ≤ x.left.buffer.capacity ∨ p.ceiling < a.size) := by
          rw [← target?_eq_none_iff p a.size x.left.buffer.capacity_le, ht]
          exact Option.some_ne_none target
        simp [grow, growing?, closing?, ha, hs, ht, hgoes]
    | success =>
      cases hb : x.left.buffer.setLength a.size with
      | ok b => simp [conclude_of_success ha hs hb, growing?, closing?, ha, hs]
      | error f => simp [conclude_of_tooLong ha (.inl hs) hb, growing?, closing?, ha, hs]
    | moreEntries =>
      cases hb : x.left.buffer.setLength a.size with
      | ok b => simp [conclude_of_moreEntries ha hs hb, growing?, closing?, ha, hs]
      | error f => simp [conclude_of_tooLong ha (.inr hs) hb, growing?, closing?, ha, hs]
    | noMoreEntries => simp [conclude_of_noMoreEntries ha hs, growing?, closing?, ha, hs]
    | failure => simp [conclude_of_failure ha hs, growing?, closing?, ha, hs]

/-- A growth is for more than the capacity, so the next attempt finds exactly its target in whole
words. -/
theorem Enlarged.capacity_eq (h : p.Enlarged alloc x b) :
    ∃ a target, x.answer = some a ∧
      p.growing? x = some (.growing x.left.buffer.capacity target a.size) ∧
      b.capacity = roundToWord target := by
  obtain ⟨a, ha, hs, hg⟩ := h
  cases ht : p.target? x.left.buffer.capacity a.size with
  | none =>
    rw [grow_of_refused ht] at hg
    cases hg
  | some target =>
    refine ⟨a, target, ha, growing?_of_target ha hs ht, ?_⟩
    have hlarger := lt_capacity_of_grow hg
    rw [grow_of_target ht] at hg
    have hround := le_roundToWord target
    rcases Buffer.capacity_of_reserve hg with hcapacity | ⟨-, rfl⟩
    · omega
    · omega

theorem closing?_of_enlarged (h : p.Enlarged alloc x b) : p.closing? x = none := by
  obtain ⟨a, ha, hs, hg⟩ := h
  have hlt := lt_ceiling_of_grow hg
  obtain ⟨target, ht, -⟩ := le_capacity_of_grow hg
  have hgoes : ¬ (p.ceiling ≤ x.left.buffer.capacity ∨ p.ceiling < a.size) := by
    rw [← target?_eq_none_iff p a.size x.left.buffer.capacity_le, ht]
    exact Option.some_ne_none target
  simp only [closing?, ha, hs, if_neg hgoes]

end Events

/-- The second attempt finds the capacity that the growth after the first one is announced to
reach, and without a growth the capacity that the first one left. -/
def Leads (p : SizingPolicy) (x y : Attempt σ) : Prop :=
  match p.growing? x with
  | some (.growing _ target _) => y.found.buffer.capacity = roundToWord target
  | _ => y.found.buffer.capacity = x.left.buffer.capacity

theorem Enlarged.leads {x y : Attempt σ} {b : Buffer} (h : p.Enlarged alloc x b)
    (hy : y.found.buffer.capacity = b.capacity) : p.Leads x y := by
  obtain ⟨a, target, -, hgrowing, hcapacity⟩ := h.capacity_eq
  rw [Leads, hgrowing]
  exact hy.trans hcapacity

end SizingPolicy

def Event.raisedTo? : Event → Option Nat
  | growing _ target _ => some (roundToWord target)
  | _ => none

namespace Course

variable {u : InUse σ} {earlier : List (Attempt σ)} {last : Attempt σ}

theorem flatMap_log (hcall : call.Silent) (h : Course p alloc call u earlier last) :
    (earlier.flatMap fun x => (p.conclude alloc x).log) ++ (p.conclude alloc last).log =
      (earlier ++ [last]).filterMap p.growing? ++ (p.closing? last).toList := by
  have hsilent : ∀ x ∈ earlier ++ [last], x.log = [] := by
    intro x hx
    obtain ⟨v, rfl⟩ := h.exists_attempt x hx
    exact hcall v.clear
  have hearlier : (earlier.flatMap fun x => (p.conclude alloc x).log) =
      earlier.filterMap p.growing? := by
    rw [List.filterMap_eq_flatMap_toList]
    apply List.flatMap_congr
    intro x hx
    obtain ⟨b, hb⟩ := h.enlarged_of_mem x hx
    rw [p.log_conclude, hsilent x (List.mem_append_left _ hx),
      SizingPolicy.closing?_of_enlarged hb]
    simp
  rw [hearlier, p.log_conclude, hsilent last (List.mem_append_right _ List.mem_cons_self),
    List.filterMap_append, List.filterMap_eq_flatMap_toList p.growing? [last],
    List.flatMap_singleton, List.nil_append, List.append_assoc]

theorem isChain_leads (h : Course p alloc call u earlier last) :
    (earlier ++ [last]).IsChain p.Leads :=
  h.isChain fun _ hb => hb.leads rfl

/-- The first attempt has the capacity that is lent, and every further one that of the growth
announced before it. -/
theorem map_capacity (h : Course p alloc call u earlier last) :
    (earlier ++ [last]).map (fun x => x.found.buffer.capacity) =
      u.buffer.capacity :: (earlier.filterMap p.growing?).filterMap Event.raisedTo? := by
  induction h with
  | last u _ => rfl
  | again u hb _ ih =>
    obtain ⟨a, target, -, hgrowing, hcapacity⟩ := hb.capacity_eq
    rw [List.cons_append, List.map_cons, ih, List.filterMap_cons_some hgrowing,
      List.filterMap_cons_some (f := Event.raisedTo?) rfl, hcapacity]
    rfl

/-- The growth after the last attempt, if one is announced, reaches no further attempt. -/
theorem map_capacity_eq_take (h : Course p alloc call u earlier last) :
    (earlier ++ [last]).map (fun x => x.found.buffer.capacity) =
      (u.buffer.capacity ::
        ((earlier ++ [last]).filterMap p.growing?).filterMap Event.raisedTo?).take
          (earlier.length + 1) := by
  have hcapacities := h.map_capacity
  have hlength : ((earlier.filterMap p.growing?).filterMap Event.raisedTo?).length =
      earlier.length := by
    have hsame := congrArg List.length hcapacities
    simp only [List.length_map, List.length_append, List.length_cons, List.length_nil] at hsame
    omega
  rw [hcapacities, List.filterMap_append, List.filterMap_append, List.take_succ_cons,
    List.take_left' hlength]

end Course

namespace Event

def closes : Event → Bool
  | ceilingReached .. | callFailed _ => true
  | _ => false

def tallies : Event → Bool
  | enumerationComplete _ | enumerationExhausted _ => true
  | _ => false

theorem closes_of_tallies {event : Event} (h : event.tallies = true) :
    event.closes = false := by
  cases event with
  | enumerationComplete | enumerationExhausted => rfl
  | growing | ceilingReached | callFailed | oversizedDropped | surplusDropped | releasing
  | dropFailed | limitIgnored => cases h

end Event

theorem SizingPolicy.exists_of_growing? {x : Attempt σ} {event : Event}
    (h : p.growing? x = some event) :
    ∃ capacity target required, event = .growing capacity target required := by
  obtain ⟨a, target, -, -, -, rfl⟩ := growing?_eq_some_iff.mp h
  exact ⟨_, _, _, rfl⟩

namespace Session

/-- The log of a run that handed its buffer back, as an account of its attempts. -/
structure Logged (p : SizingPolicy) (b : Buffer) (rest : Pool) (earlier : List (Attempt σ))
    (last : Attempt σ) (announced : Option Event) (used : Buffer) (e : Effect (Session σ) β) :
    Prop where
  /-- All that was reported, in its order. -/
  log_eq : e.log = (earlier ++ [last]).filterMap p.growing? ++
    ((p.closing? last).toList ++ (announced.toList ++ (rest.release used).2))
  growing_iff : ∀ x ∈ earlier ++ [last], (p.growing? x).isSome ↔ ∃ a, x.answer = some a ∧
    a.code.signal = .insufficientBuffer ∧
    ¬ (p.ceiling ≤ x.left.buffer.capacity ∨ p.ceiling < a.size)
  first : ∀ x ∈ (earlier ++ [last]).head?, x.found.buffer.capacity = b.capacity
  chained : (earlier ++ [last]).IsChain p.Leads
  refused_iff : ∀ current required ceiling, .ceilingReached current required ceiling ∈ e.log ↔
    ∃ a, last.answer = some a ∧ a.code.signal = .insufficientBuffer ∧
      (p.ceiling ≤ last.left.buffer.capacity ∨ p.ceiling < a.size) ∧
      current = last.left.buffer.capacity ∧ required = a.size ∧ ceiling = p.ceiling
  failed_iff : ∀ code, .callFailed code ∈ e.log ↔
    ∃ a, last.answer = some a ∧ a.code = code ∧ code.signal = .failure
  announced_eq : e.log.filter Event.tallies = announced.toList
  used_bytes : used.bytes = last.left.buffer.bytes
  returned : e.state.pool = (rest.release used).1
  evicted_iff : (rest.release used).2 ≠ [] ↔
    0 < used.capacity ∧ e.state.pool.slots ≠ rest.slots ++ [used.clear]
  evicted_once : (rest.release used).2.length ≤ 1

section Logs

variable {b : Buffer} {rest : Pool} {earlier : List (Attempt σ)} {last : Attempt σ}
  {announced : Option Event} {used : Buffer} {e : Effect (Session σ) β} {event : Event}

theorem mem_log_iff (hlog : e.log = (earlier ++ [last]).filterMap p.growing? ++
      ((p.closing? last).toList ++ (announced.toList ++ (rest.release used).2)))
    (hannounced : ∀ event ∈ announced, event.tallies = true) (hcloses : event.closes = true) :
    event ∈ e.log ↔ p.closing? last = some event := by
  simp only [hlog, List.mem_append, List.mem_filterMap, Option.mem_toList]
  constructor
  · rintro (⟨x, -, hx⟩ | hclosing | hitems | hreleased)
    · obtain ⟨_, _, _, rfl⟩ := SizingPolicy.exists_of_growing? hx
      cases hcloses
    · exact hclosing
    · rw [Event.closes_of_tallies (hannounced event hitems)] at hcloses
      cases hcloses
    · rcases Pool.mem_release_snd hreleased with rfl | rfl <;> cases hcloses
  · intro hclosing
    exact .inr (.inl hclosing)

theorem Logged.of_log_eq (hlog : e.log = (earlier ++ [last]).filterMap p.growing? ++
      ((p.closing? last).toList ++ (announced.toList ++ (rest.release used).2)))
    (hfirst : ∀ x ∈ (earlier ++ [last]).head?, x.found.buffer.capacity = b.capacity)
    (hchain : (earlier ++ [last]).IsChain p.Leads)
    (hannounced : ∀ event ∈ announced, event.tallies = true)
    (hbytes : used.bytes = last.left.buffer.bytes)
    (hpool : e.state.pool = (rest.release used).1) :
    Logged p b rest earlier last announced used e where
  log_eq := hlog
  growing_iff := fun _ _ => SizingPolicy.isSome_growing?_iff
  first := hfirst
  chained := hchain
  refused_iff := by
    intro current required ceiling
    rw [mem_log_iff hlog hannounced rfl, SizingPolicy.closing?_eq_some_iff]
    simp
  failed_iff := by
    intro code
    rw [mem_log_iff hlog hannounced rfl, SizingPolicy.closing?_eq_some_iff]
    constructor
    · rintro ⟨a, ha, ⟨-, -, hevent⟩ | ⟨hs, hevent⟩⟩
      · cases hevent
      · cases hevent
        exact ⟨a, ha, rfl, hs⟩
    · rintro ⟨a, ha, rfl, hs⟩
      exact ⟨a, ha, .inr ⟨hs, rfl⟩⟩
  announced_eq := by
    have hgrowths : ∀ event ∈ (earlier ++ [last]).filterMap p.growing?,
        ¬ event.tallies = true := by
      intro event hevent
      obtain ⟨x, -, hx⟩ := List.mem_filterMap.mp hevent
      obtain ⟨_, _, _, rfl⟩ := SizingPolicy.exists_of_growing? hx
      exact nofun
    have hclosing : ∀ event ∈ (p.closing? last).toList, ¬ event.tallies = true := by
      intro event hevent
      obtain ⟨-, -, ⟨-, -, rfl⟩ | ⟨-, rfl⟩⟩ :=
        SizingPolicy.closing?_eq_some_iff.mp (Option.mem_toList.mp hevent)
      · exact nofun
      · exact nofun
    have hreleased : ∀ event ∈ (rest.release used).2, ¬ event.tallies = true := by
      intro event hevent
      rcases Pool.mem_release_snd hevent with rfl | rfl
      · exact nofun
      · exact nofun
    have hkept : announced.toList.filter Event.tallies = announced.toList :=
      List.filter_eq_self.mpr fun event hevent => hannounced event (Option.mem_toList.mp hevent)
    rw [hlog, List.filter_append, List.filter_append, List.filter_append,
      List.filter_eq_nil_iff.mpr hgrowths, List.filter_eq_nil_iff.mpr hclosing,
      List.filter_eq_nil_iff.mpr hreleased, hkept]
    simp
  used_bytes := hbytes
  returned := hpool
  evicted_iff := by
    rw [hpool]
    exact rest.release_snd_ne_nil_iff used
  evicted_once := rest.length_release_snd_le used

theorem Logged.filterMap_raisedTo? (h : Logged p b rest earlier last announced used e) :
    e.log.filterMap Event.raisedTo? =
      ((earlier ++ [last]).filterMap p.growing?).filterMap Event.raisedTo? := by
  have hother : ∀ event ∈ (p.closing? last).toList ++
      (announced.toList ++ (rest.release used).2), event.raisedTo? = none := by
    intro event hevent
    rcases List.mem_append.mp hevent with hclosing | hevent
    · obtain ⟨-, -, ⟨-, -, rfl⟩ | ⟨-, rfl⟩⟩ :=
        SizingPolicy.closing?_eq_some_iff.mp (Option.mem_toList.mp hclosing)
      · rfl
      · rfl
    rcases List.mem_append.mp hevent with hitems | hreleased
    · rw [← h.announced_eq] at hitems
      have htallies := List.of_mem_filter hitems
      cases event with
      | enumerationComplete | enumerationExhausted => rfl
      | growing | ceilingReached | callFailed | oversizedDropped | surplusDropped | releasing
      | dropFailed | limitIgnored => cases htallies
    · rcases Pool.mem_release_snd hreleased with rfl | rfl <;> rfl
  rw [h.log_eq, List.filterMap_append, List.filterMap_eq_nil_iff.mpr hother, List.append_nil]

theorem Logged.ceilingReached_mem_iff (h : Logged p b rest earlier last announced used e)
    {a : Answer} (ha : last.answer = some a) :
    .ceilingReached last.left.buffer.capacity a.size p.ceiling ∈ e.log ↔
      p.closing? last = some (.ceilingReached last.left.buffer.capacity a.size p.ceiling) := by
  rw [h.refused_iff, SizingPolicy.closing?_eq_some_iff]
  simp [ha]

end Logs

end Session

namespace SizingPolicy

variable {x : Attempt σ} {a : Answer}

theorem conclude_ceiling_iff {code : Code} :
    (p.conclude alloc x).value = some (.failed ⟨.ceiling p.ceiling code, none⟩) ↔
      ∃ a, x.answer = some a ∧ a.code = code ∧ p.closing? x =
        some (.ceilingReached x.left.buffer.capacity a.size p.ceiling) := by
  cases ha : x.answer with
  | none => simp [conclude_of_none ha]
  | some a =>
    cases hs : a.code.signal with
    | insufficientBuffer =>
      cases ht : p.target? x.left.buffer.capacity a.size with
      | none =>
        have hrefused := (target?_eq_none_iff p a.size x.left.buffer.capacity_le).mp ht
        rw [conclude_of_grow_error ha hs (grow_of_refused ht)]
        simp [closing?, ha, hs, hrefused]
      | some target =>
        have hgoes : ¬ (p.ceiling ≤ x.left.buffer.capacity ∨ p.ceiling < a.size) := by
          rw [← target?_eq_none_iff p a.size x.left.buffer.capacity_le, ht]
          exact Option.some_ne_none target
        cases hg : (p.grow alloc a x.left.buffer).result with
        | ok b => simp [conclude_of_grow ha hs hg, closing?, ha, hs, hgoes]
        | error f =>
          have hprovided := hg
          rw [grow_of_target ht] at hprovided
          obtain ⟨fault, -, rfl⟩ := Buffer.fault_of_reserve hprovided
          simp [conclude_of_grow_error ha hs hg, closing?, ha, hs, hgoes]
    | success =>
      rcases Nat.lt_or_ge x.left.buffer.capacity a.size with hlt | hle
      · rw [conclude_of_tooLong ha (.inl hs) (Buffer.setLength_of_lt hlt)]
        simp [closing?, ha, hs]
      · obtain ⟨b, hb, -⟩ := Buffer.setLength_of_le hle
        simp [conclude_of_success ha hs hb, closing?, ha, hs]
    | moreEntries =>
      rcases Nat.lt_or_ge x.left.buffer.capacity a.size with hlt | hle
      · rw [conclude_of_tooLong ha (.inr hs) (Buffer.setLength_of_lt hlt)]
        simp [closing?, ha, hs]
      · obtain ⟨b, hb, -⟩ := Buffer.setLength_of_le hle
        simp [conclude_of_moreEntries ha hs hb, closing?, ha, hs]
    | noMoreEntries => simp [conclude_of_noMoreEntries ha hs, closing?, ha, hs]
    | failure => simp [conclude_of_failure ha hs, closing?, ha, hs, Failure.reported]

end SizingPolicy

namespace Session

variable {s : Session σ} {n : Nat} {b : Buffer} {rest : Pool}

section Single

variable {decode : Decoder σ α} {earlier : List (Attempt σ)} {last : Attempt σ}
  {e : Effect (Session σ) (Outcome α)}

theorem not_complete_of_conclude {settled : Outcome Settled}
    (hvalue : (p.conclude alloc last).value = some settled) (hn : ¬ last.Completes) :
    settled ≠ .returned .complete := by
  rintro rfl
  obtain ⟨a, ha, hs⟩ := SizingPolicy.signal_of_conclude hvalue
  rcases Nat.lt_or_ge last.left.buffer.capacity a.size with hlt | hle
  · rw [SizingPolicy.conclude_of_tooLong ha (.inl hs) (Buffer.setLength_of_lt hlt)] at hvalue
    cases hvalue
  · exact hn ⟨a, ha, hs, hle⟩

theorem log_decodeSettled {settled : Outcome Settled} (h : settled ≠ .returned .complete)
    (u : InUse σ) : (decodeSettled decode settled u).log = [] := by
  cases settled with
  | returned result =>
    cases result with
    | complete => exact absurd rfl h
    | more | exhausted => rfl
  | failed | panicked => rfl

/-- What a single run reports and how it hands its buffer back. The decoder is heard after the
attempts and before the pool, if the last attempt gave it something to decode. -/
structure Told (p : SizingPolicy) (decode : Decoder σ α) (rest : Pool) (earlier : List (Attempt σ))
    (last : Attempt σ) (used : Buffer) (told : List Event)
    (e : Effect (Session σ) (Outcome α)) : Prop where
  log_eq : e.log = (earlier ++ [last]).filterMap p.growing? ++
    ((p.closing? last).toList ++ (told ++ (rest.release used).2))
  decoded : last.Completes → told = (decode used used.length last.left.state).log
  undecoded : ¬ last.Completes → told = []
  used_bytes : used.bytes = last.left.buffer.bytes
  returned : e.state.pool = (rest.release used).1

theorem Told.of_course (hcall : call.Silent) (hlease : s.pool.acquire alloc n = (.ok b, rest))
    (hcourse : Course p alloc call ⟨b, s.state⟩ earlier last)
    (he : single p alloc n call decode s = some e) :
    ∃ used told, Told p decode rest earlier last used told e := by
  obtain ⟨settled, hsettled, hyields⟩ := hcourse.settle_eq
  rw [single_of_lease hlease, settleOnce_of_settle hsettled] at he
  cases he
  refine ⟨settled.state.buffer, (decodeSettled decode settled.value settled.state).log,
    ?_, ?_, ?_, hcourse.bytes_settle hsettled, ?_⟩
  · rw [giveBack, Effect.log_after, Effect.state_after, buffer_decodeSettled, hyields.log,
      hcourse.flatMap_log hcall]
    simp
  · rintro ⟨a, ha, hs, hfits⟩
    obtain ⟨d, hd, -, -⟩ := Buffer.setLength_of_le hfits
    have hvalue := hyields.value
    have hstate := hyields.state
    rw [SizingPolicy.conclude_of_success ha hs hd] at hvalue hstate
    rw [← Option.some.inj hvalue, hstate]
    rfl
  · intro hn
    exact log_decodeSettled (not_complete_of_conclude hyields.value hn) _
  · rw [giveBack, Effect.state_after, buffer_decodeSettled]

theorem Logged.of_course (hcall : call.Silent) (hdecode : decode.Silent)
    (hlease : s.pool.acquire alloc n = (.ok b, rest))
    (hcourse : Course p alloc call ⟨b, s.state⟩ earlier last)
    (he : single p alloc n call decode s = some e) :
    ∃ used, Logged p b rest earlier last none used e := by
  obtain ⟨used, told, htold⟩ := Told.of_course hcall hlease hcourse he
  have hnone : told = [] := by
    by_cases hcompletes : last.Completes
    · rw [htold.decoded hcompletes]
      exact hdecode _ _ _
    · exact htold.undecoded hcompletes
  refine ⟨used, .of_log_eq ?_ ?_ hcourse.isChain_leads nofun htold.used_bytes htold.returned⟩
  · rw [htold.log_eq, hnone]
    rfl
  · obtain ⟨more, hcons⟩ := hcourse.exists_cons
    rw [hcons]
    rintro - ⟨⟩
    rfl

theorem value_ceiling_iff (hlease : s.pool.acquire alloc n = (.ok b, rest))
    (hcourse : Course p alloc call ⟨b, s.state⟩ earlier last)
    (he : single p alloc n call decode s = some e) (hn : ¬ last.Completes) {code : Code} :
    e.value = .failed ⟨.ceiling p.ceiling code, none⟩ ↔
      ∃ a, last.answer = some a ∧ a.code = code ∧
        p.closing? last = some (.ceilingReached last.left.buffer.capacity a.size p.ceiling) := by
  obtain ⟨settled, hsettled, hyields⟩ := hcourse.settle_eq
  have hnot := not_complete_of_conclude hyields.value hn
  rw [single_of_lease hlease, settleOnce_of_settle hsettled] at he
  cases he
  rw [← @SizingPolicy.conclude_ceiling_iff σ p alloc, hyields.value, Option.some_inj, giveBack,
    Effect.value_after]
  cases hvalue : settled.value with
  | returned result =>
    cases result with
    | complete => exact absurd hvalue hnot
    | more | exhausted => simp [decodeSettled, Action.pure_apply, Failure.reported]
  | failed f => simp [decodeSettled, Action.pure_apply]
  | panicked => simp [decodeSettled, Action.pure_apply]

end Single

section Enumeration

variable {decode : Decoder σ (List α)} {items : List α} {x : Attempt σ} {r m : Reading σ α}
  {y z last : Round σ α} {rounds : List (Round σ α)} {outcome : Outcome (List α)} {v : InUse σ}

/-- What an enumeration announces of the items that it returns: how many they are, and whether it
came to the end of the entries or to a last batch. -/
def announcement? (last : Attempt σ) : Outcome (List α) → Option Event
  | .returned items =>
    some (if last.answer.any fun a => a.code.signal = .noMoreEntries then
      .enumerationExhausted items.length else .enumerationComplete items.length)
  | .failed _ | .panicked => none

theorem tallies_of_announcement? {event : Event} (h : announcement? x outcome = some event) :
    event.tallies = true := by
  cases outcome with
  | returned items =>
    cases h
    split <;> rfl
  | failed | panicked => cases h

theorem Continues.log_eq (hdecode : decode.Silent) (hlog : x.log = [])
    (h : Continues p alloc decode items x y m) : y.log = (p.growing? x).toList := by
  cases h with
  | grown ha hs hg =>
    have hconclude := p.log_conclude alloc x
    rw [SizingPolicy.conclude_of_grow ha hs hg,
      SizingPolicy.closing?_of_enlarged ⟨_, ha, hs, hg⟩] at hconclude
    simpa [hlog] using hconclude
  | @more a b batch t log ha hs hb hd =>
    have hsilent : log = [] := hdecode.log_eq hd
    have hgrowing : p.growing? x = none := SizingPolicy.growing?_of_signal ha (by rw [hs]; nofun)
    simp [hlog, hsilent, hgrowing]

theorem Concludes.log_eq (hdecode : decode.Silent) (hlog : x.log = [])
    (h : Concludes p alloc decode items x last outcome v) :
    last.log = (p.growing? x).toList ++
      ((p.closing? x).toList ++ (announcement? x outcome).toList) := by
  cases h with
  | @complete a b batch t log ha hs hb hd =>
    have hsilent : log = [] := hdecode.log_eq hd
    simp [hlog, hsilent, SizingPolicy.growing?, SizingPolicy.closing?, announcement?, ha, hs]
  | exhausted ha hs =>
    simp [hlog, SizingPolicy.growing?, SizingPolicy.closing?, announcement?, ha, hs]
  | @undecoded a b f t log ha hs hb hd =>
    have hsilent : log = [] := hdecode.log_eq hd
    rcases hs with hs | hs <;>
      simp [hlog, hsilent, SizingPolicy.growing?, SizingPolicy.closing?, announcement?, ha, hs]
  | @abandoned a b t log ha hs hb hd =>
    have hsilent : log = [] := hdecode.log_eq hd
    rcases hs with hs | hs <;>
      simp [hlog, hsilent, SizingPolicy.growing?, SizingPolicy.closing?, announcement?, ha, hs]
  | tooLong ha hs hb =>
    rcases hs with hs | hs <;>
      simp [hlog, SizingPolicy.growing?, SizingPolicy.closing?, announcement?, ha, hs]
  | reported ha hs =>
    simp [hlog, SizingPolicy.growing?, SizingPolicy.closing?, announcement?, ha, hs]
  | ungrown ha hs hg =>
    have hconclude := p.log_conclude alloc x
    rw [SizingPolicy.conclude_of_grow_error ha hs hg] at hconclude
    simpa [hlog, announcement?] using hconclude
  | unwound ha =>
    simp [hlog, SizingPolicy.growing?, SizingPolicy.closing?, announcement?, ha]

theorem Continues.leads (h : Continues p alloc decode items x y m)
    (hz : z.attempt = call.attempt m.used) : p.Leads x z.attempt := by
  cases h with
  | grown ha hs hg =>
    rw [hz]
    exact SizingPolicy.Enlarged.leads ⟨_, ha, hs, hg⟩ rfl
  | more ha hs hb hd =>
    have hgrowing : p.growing? x = none := SizingPolicy.growing?_of_signal ha (by rw [hs]; nofun)
    rw [SizingPolicy.Leads, hgrowing, hz]
    exact (Buffer.capacity_clear _).trans (Buffer.capacity_of_setLength hb)

theorem Rounds.isChain_leads (h : Rounds p alloc call decode r rounds m)
    (hz : z.attempt = call.attempt m.used) :
    (rounds.map Round.attempt ++ [z.attempt]).IsChain p.Leads := by
  have hchain : (rounds ++ [z]).IsChain fun x y => p.Leads x.attempt y.attempt := by
    refine h.isChain ?_ hz
    intro r m x y hx hy
    rw [hx.attempt_eq]
    exact hx.leads hy
  rw [← List.map_singleton, ← List.map_append, List.isChain_map]
  exact hchain

theorem Rounds.flatMap_log (hcall : call.Silent) (hdecode : decode.Silent)
    (h : Rounds p alloc call decode r rounds m) :
    rounds.flatMap Round.log = (rounds.map Round.attempt).filterMap p.growing? := by
  induction h with
  | refl => rfl
  | @head r m r' y rounds hy _ ih =>
    rw [List.flatMap_cons, hy.log_eq hdecode (hcall r.used.clear), ih, List.map_cons,
      List.filterMap_eq_flatMap_toList, List.filterMap_eq_flatMap_toList, List.flatMap_cons,
      hy.attempt_eq]

theorem Rounds.exists_attempt (h : Rounds p alloc call decode r rounds m) :
    ∀ x ∈ rounds.map Round.attempt, ∃ u, x = call.attempt u := by
  induction h with
  | refl => exact nofun
  | head hy _ ih => exact List.forall_mem_cons.mpr ⟨⟨_, hy.attempt_eq⟩, ih⟩

theorem Concludes.bytes_eq (h : Concludes p alloc decode items x last outcome v) :
    v.buffer.bytes = x.left.buffer.bytes := by
  cases h with
  | @complete a b _ _ _ _ _ hb _ | @undecoded a b _ _ _ _ _ hb _ | @abandoned a b _ _ _ _ hb _ =>
    have hset := Buffer.setLength_setsLength a.size x.left.buffer
    rw [hb] at hset
    exact hset.2.2
  | exhausted | tooLong | reported | ungrown | unwound => rfl

theorem delivers_of_setLength {a : Answer} (ha : x.answer = some a)
    (hs : a.code.signal = .success ∨ a.code.signal = .moreEntries)
    (hb : x.left.buffer.setLength a.size = .ok b) : x.Delivers := by
  have hset := Buffer.setLength_setsLength a.size x.left.buffer
  rw [hb] at hset
  exact ⟨a, ha, hs, hset.1⟩

theorem Concludes.value_ceiling_iff (h : Concludes p alloc decode items x last outcome v)
    (hn : ¬ x.Delivers) {code : Code} :
    outcome = .failed ⟨.ceiling p.ceiling code, none⟩ ↔ ∃ a, x.answer = some a ∧ a.code = code ∧
      p.closing? x = some (.ceilingReached x.left.buffer.capacity a.size p.ceiling) := by
  rw [← @SizingPolicy.conclude_ceiling_iff σ p alloc]
  cases h with
  | complete ha hs hb _ => exact absurd (delivers_of_setLength ha (.inl hs) hb) hn
  | undecoded ha hs hb _ | abandoned ha hs hb _ => exact absurd (delivers_of_setLength ha hs hb) hn
  | exhausted ha hs => simp [SizingPolicy.conclude_of_noMoreEntries ha hs]
  | tooLong ha hs hb => simp [SizingPolicy.conclude_of_tooLong ha hs hb]
  | reported ha hs => simp [SizingPolicy.conclude_of_failure ha hs]
  | ungrown ha hs hg => simp [SizingPolicy.conclude_of_grow_error ha hs hg]
  | unwound ha => simp [SizingPolicy.conclude_of_none ha]

theorem Logged.of_rounds {e : Effect (Session σ) (Outcome (List α))} (hcall : call.Silent)
    (hdecode : decode.Silent) (hrun : EnumerationRun p alloc n call decode s b rest e rounds last) :
    ∃ used, Logged p b rest (rounds.map Round.attempt) last.attempt
      (announcement? last.attempt e.value) used e := by
  obtain ⟨r, v, hrounds, hlast, he⟩ := hrun.reached
  refine ⟨v.buffer, .of_log_eq ?_ ?_ (hrounds.isChain_leads hlast.attempt_eq) ?_ ?_ ?_⟩
  · have hlog := congrArg Effect.log he
    rw [giveBack, List.flatMap_append, List.flatMap_singleton, hrounds.flatMap_log hcall hdecode,
      hlast.log_eq hdecode (hcall r.used.clear)] at hlog
    rw [hlog, List.filterMap_append, List.filterMap_eq_flatMap_toList p.growing? [last.attempt],
      List.flatMap_singleton, hlast.attempt_eq]
    simp only [List.append_assoc]
  · obtain ⟨first, more, hcons, hfirst⟩ := hrounds.exists_cons hlast.attempt_eq
    have hmap := congrArg (List.map Round.attempt) hcons
    rw [List.map_append, List.map_singleton, List.map_cons, hfirst] at hmap
    rw [hmap]
    rintro - ⟨⟩
    rfl
  · intro event hevent
    exact tallies_of_announcement? hevent
  · rw [hlast.bytes_eq, hlast.attempt_eq]
  · rw [he]
    rfl

end Enumeration

/-- The log is a faithful account of every run that got its lease, if call and decoder report
nothing themselves. Each attempt whose buffer was too small is there, in its order, with the growth
that followed if the ceiling did not refuse it; a refusal or a failure of the last call comes next,
then the number of items if an enumeration returns some, and then the buffer if it is freed. Of a
single run the capacities of all attempts can be told from the log. -/
theorem log_accounts_for_run (p : SizingPolicy) {s : Session σ} {n : Nat} {b : Buffer}
    {rest : Pool} (hlease : s.pool.acquire alloc n = (.ok b, rest)) (hcall : call.Silent) :
    (∀ {α : Type} (decode : Decoder σ α) (e : Effect (Session σ) (Outcome α)), decode.Silent →
      single p alloc n call decode s = some e →
      ∃ earlier last used, Course p alloc call ⟨b, s.state⟩ earlier last ∧
        Logged p b rest earlier last none used e ∧
        ((earlier ++ [last]).map fun x => x.found.buffer.capacity) =
          (b.capacity :: e.log.filterMap Event.raisedTo?).take (earlier.length + 1) ∧
        (¬ last.Completes → ∀ code, e.value = .failed ⟨.ceiling p.ceiling code, none⟩ ↔
          ∃ a, last.answer = some a ∧ a.code = code ∧
            .ceilingReached last.left.buffer.capacity a.size p.ceiling ∈ e.log) ∧
        (call.KeepsCapacity → ∀ x ∈ earlier ++ [last],
          x.left.buffer.capacity = x.found.buffer.capacity)) ∧
    ∀ {α : Type} (decode : Decoder σ (List α)) (e : Effect (Session σ) (Outcome (List α))),
      decode.Silent → enumerate p alloc n call decode s = some e →
      ∃ rounds last used, EnumerationRun p alloc n call decode s b rest e rounds last ∧
        Logged p b rest (rounds.map Round.attempt) last.attempt
          (announcement? last.attempt e.value) used e ∧
        (¬ last.attempt.Delivers → ∀ code, e.value = .failed ⟨.ceiling p.ceiling code, none⟩ ↔
          ∃ a, last.attempt.answer = some a ∧ a.code = code ∧
            .ceilingReached last.attempt.left.buffer.capacity a.size p.ceiling ∈ e.log) ∧
        (call.KeepsCapacity → ∀ x ∈ rounds.map Round.attempt ++ [last.attempt],
          x.left.buffer.capacity = x.found.buffer.capacity) := by
  constructor
  · intro α decode e hdecode he
    obtain ⟨earlier, last, hcourse⟩ := (single_ends_iff hlease).mp ⟨e, he⟩
    obtain ⟨used, hlogged⟩ := Logged.of_course hcall hdecode hlease hcourse he
    refine ⟨earlier, last, used, hcourse, hlogged, ?_, ?_, ?_⟩
    · rw [hlogged.filterMap_raisedTo?, hcourse.map_capacity_eq_take]
    · intro hn code
      rw [value_ceiling_iff hlease hcourse he hn]
      exact exists_congr fun a => and_congr_right fun ha => and_congr_right fun _ =>
        (hlogged.ceilingReached_mem_iff ha).symm
    · intro hkeeps x hx
      obtain ⟨v, rfl⟩ := hcourse.exists_attempt x hx
      exact hkeeps v.clear
  · intro α decode e hdecode he
    obtain ⟨rounds, last, hrun⟩ := ((Enumerated.of_acquire hlease).ends_iff e).mp he
    obtain ⟨used, hlogged⟩ := Logged.of_rounds hcall hdecode hrun
    obtain ⟨r, v, hrounds, hlast, -⟩ := hrun.reached
    refine ⟨rounds, last, used, hrun, hlogged, ?_, ?_⟩
    · intro hn code
      have hended := hlast
      rw [← hlast.attempt_eq] at hended
      rw [hended.value_ceiling_iff hn]
      exact exists_congr fun a => and_congr_right fun ha => and_congr_right fun _ =>
        (hlogged.ceilingReached_mem_iff ha).symm
    · intro hkeeps x hx
      rcases List.mem_append.mp hx with hx | hx
      · obtain ⟨u, rfl⟩ := hrounds.exists_attempt x hx
        exact hkeeps u.clear
      · rw [List.mem_singleton.mp hx, hlast.attempt_eq]
        exact hkeeps r.used.clear

end Session

theorem Call.wanting_silent (n : Nat) : (wanting n).Silent := by
  intro u
  unfold wanting
  split <;> rfl

/-- The first attempt finds no room, and its growth is what the log starts with. -/
theorem Session.log_accounts_for_run_wanting :
    Pool.acquire ⟨fun _ => true⟩ 0 ⟨{}, []⟩ = (.ok .empty, ⟨{}, []⟩) ∧
      (Call.wanting 100).Silent ∧
      ∃ e, single {} ⟨fun _ => true⟩ 0 (Call.wanting 100) (fun _ size => pure (.returned size))
          ⟨⟨{}, []⟩, ()⟩ = some e ∧ e.log.head? = some (.growing 0 256 100) := by
  have hlease : Pool.acquire ⟨fun _ => true⟩ 0 ⟨{}, []⟩ = (.ok .empty, ⟨{}, []⟩) := rfl
  have hends : ∃ e, single {} ⟨fun _ => true⟩ 0 (Call.wanting 100)
      (fun _ size => pure (.returned size)) ⟨⟨{}, []⟩, ()⟩ = some e :=
    (single_ends_iff hlease).mpr
      (Course.exists_of_neverShrinks _ _ (Call.wanting_neverShrinks 100) _)
  obtain ⟨e, he⟩ := hends
  obtain ⟨earlier, last, used, hcourse, hlogged, -⟩ :=
    (log_accounts_for_run {} (s := ⟨⟨{}, []⟩, ()⟩) hlease (Call.wanting_silent 100)).1 _ e
      (fun _ _ _ => rfl) he
  obtain ⟨more, hcons⟩ := hcourse.exists_cons
  have htarget : SizingPolicy.target? {} Buffer.empty.capacity 100 = some 256 := by decide
  have hanswer : ((Call.wanting 100).attempt ⟨.empty, ()⟩).answer =
      some ⟨.win32 Win32.insufficientBuffer, 100⟩ := rfl
  have hfirst := SizingPolicy.growing?_of_target hanswer rfl htarget
  refine ⟨hlease, Call.wanting_silent 100, e, he, ?_⟩
  rw [hlogged.log_eq, hcons, List.filterMap_cons_some hfirst]
  rfl

end NativeResource

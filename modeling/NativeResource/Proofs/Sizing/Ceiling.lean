import NativeResource.Proofs.Sizing.Enumeration
import NativeResource.Proofs.Sizing.Likeness
import NativeResource.Proofs.Sizing.Service
/-!
The ceiling of a growth. One formula in unbounded arithmetic says what a growth asks for, since
neither a stop at the largest machine word nor the cut to the ceiling changes it; a growth that
fails leaves the buffer as it was. A call that does not itself grow its buffer therefore never finds
a larger one than the pool lent or the ceiling allows.
-/
namespace NativeResource

variable {σ α β : Type}

namespace SizingPolicy

/-- What a growth of a buffer of the given capacity asks for, in unbounded arithmetic. -/
def exactTarget (p : SizingPolicy) (capacity required : Nat) : Nat :=
  min p.ceiling (max required (max (2 * capacity) (capacity + p.increment)))

inductive Grows (p : SizingPolicy) (alloc : Allocator) (a : Answer) (u : InUse σ) :
    Effect (InUse σ) (Option (Outcome Settled)) → Prop where
  /-- At the ceiling, and for a report past it, growth is refused. -/
  | refused {f : Failure} : p.ceiling ≤ u.buffer.capacity ∨ p.ceiling < a.size →
      f.kind = .outOfMemory → f.code = some a.code →
      Grows p alloc a u
        ⟨some (.failed f), u, [.ceilingReached u.buffer.capacity a.size p.ceiling]⟩
  /-- The target cannot be had. -/
  | unprovided {f : Failure} : u.buffer.capacity < p.ceiling → a.size ≤ p.ceiling →
      u.buffer.capacity < p.exactTarget u.buffer.capacity a.size →
      alloc.fault? (roundToWord (p.exactTarget u.buffer.capacity a.size)) ≠ none →
      f.kind = .outOfMemory → f.code = none →
      Grows p alloc a u ⟨some (.failed f), u,
        [.growing u.buffer.capacity (p.exactTarget u.buffer.capacity a.size) a.size]⟩
  | grown {b : Buffer} : u.buffer.capacity < p.ceiling → a.size ≤ p.ceiling →
      u.buffer.capacity < p.exactTarget u.buffer.capacity a.size →
      alloc.fault? (roundToWord (p.exactTarget u.buffer.capacity a.size)) = none →
      Buffer.Extends (p.exactTarget u.buffer.capacity a.size) u.buffer b →
      b.capacity < p.ceiling + 8 →
      Grows p alloc a u ⟨none, ⟨b, u.state⟩,
        [.growing u.buffer.capacity (p.exactTarget u.buffer.capacity a.size) a.size]⟩

variable {p : SizingPolicy} {capacity required : Nat}

theorem exactTarget_le_ceiling (p : SizingPolicy) (capacity required : Nat) :
    p.exactTarget capacity required ≤ p.ceiling := Nat.min_le_left _ _

theorem lt_exactTarget (h : capacity < p.ceiling) (required : Nat) :
    capacity < p.exactTarget capacity required := by
  have hi := p.increment_pos
  unfold exactTarget
  omega

/-- Twice a capacity is a machine word. The sum with the increment may be none, but it is then past
the ceiling, which is one, and cut to it either way. -/
theorem min_ceiling_wanted (hceiling : p.ceiling < sizeLimit) (required : Nat)
    (hc : capacity ≤ Allocator.largestBlock) :
    min p.ceiling (p.wanted capacity required) = p.exactTarget capacity required := by
  have hdouble : saturate (capacity * 2) = 2 * capacity := by
    simp only [saturate, sizeLimit, Allocator.largestBlock] at hc ⊢
    omega
  have hsum : min p.ceiling (saturate (capacity + p.increment)) =
      min p.ceiling (capacity + p.increment) := by
    unfold saturate
    omega
  unfold exactTarget wanted
  omega

theorem target?_eq_exactTarget (hceiling : p.ceiling < sizeLimit)
    (hc : capacity ≤ Allocator.largestBlock) (hroom : capacity < p.ceiling)
    (hreport : required ≤ p.ceiling) :
    p.target? capacity required = some (p.exactTarget capacity required) := by
  rw [← min_ceiling_wanted hceiling required hc]
  by_cases hw : p.wanted capacity required ≤ p.ceiling
  · rw [target?_of_wanted_le hw, Nat.min_eq_right hw]
  · rw [target?, if_neg hw, if_pos ⟨hroom, hreport⟩,
      Nat.min_eq_left (Nat.le_of_lt (Nat.lt_of_not_le hw))]

variable {alloc : Allocator} {a : Answer} {u : InUse σ}

theorem enlarge_of_refused (h : p.target? u.buffer.capacity a.size = none) :
    p.enlarge alloc a u = ⟨some (.failed ⟨.ceiling p.ceiling a.code, none⟩), u,
      [.ceilingReached u.buffer.capacity a.size p.ceiling]⟩ := by
  simp only [enlarge, grow, h]

theorem enlarge_of_ok {t : Nat} {b : Buffer} (ht : p.target? u.buffer.capacity a.size = some t)
    (hb : u.buffer.reserve alloc t = .ok b) :
    p.enlarge alloc a u = ⟨none, ⟨b, u.state⟩, [.growing u.buffer.capacity t a.size]⟩ := by
  simp only [enlarge, grow, ht, hb]

theorem enlarge_of_error {t : Nat} {f : Failure}
    (ht : p.target? u.buffer.capacity a.size = some t)
    (hf : u.buffer.reserve alloc t = .error f) :
    p.enlarge alloc a u = ⟨some (.failed f), u, [.growing u.buffer.capacity t a.size]⟩ := by
  simp only [enlarge, grow, ht, hf]

theorem enlarge_grows (hceiling : p.ceiling < sizeLimit) (alloc : Allocator) (a : Answer)
    (u : InUse σ) : p.Grows alloc a u (p.enlarge alloc a u) := by
  by_cases hrefused : p.ceiling ≤ u.buffer.capacity ∨ p.ceiling < a.size
  · rw [enlarge_of_refused ((target?_eq_none_iff p a.size u.buffer.capacity_le).mpr hrefused)]
    exact .refused hrefused rfl rfl
  · have hroom : u.buffer.capacity < p.ceiling := by omega
    have hreport : a.size ≤ p.ceiling := by omega
    have hlt := lt_exactTarget hroom a.size
    have ht := target?_eq_exactTarget hceiling u.buffer.capacity_le hroom hreport
    cases hreserve : u.buffer.reserve alloc (p.exactTarget u.buffer.capacity a.size) with
    | error f =>
      obtain ⟨fault, hfault, rfl⟩ := Buffer.fault_of_reserve hreserve
      rw [enlarge_of_error ht hreserve]
      refine .unprovided hroom hreport hlt ?_ rfl rfl
      rw [hfault]
      exact Option.some_ne_none fault
    | ok b =>
      have hextends : Buffer.Extends (p.exactTarget u.buffer.capacity a.size) u.buffer b := by
        apply Buffer.extends_of_reserve hreserve
        exact Nat.le_trans (Nat.le_of_lt hlt) (le_roundToWord _)
      have hle := exactTarget_le_ceiling p u.buffer.capacity a.size
      have hround := roundToWord_lt (p.exactTarget u.buffer.capacity a.size)
      rw [enlarge_of_ok ht hreserve]
      refine .grown hroom hreport hlt (Buffer.fault_of_reserve_ok hreserve hlt) hextends ?_
      rw [hextends.capacity]
      omega

end SizingPolicy

/-! ### What attempts find -/

def Call.NeverGrows (call : Call σ) : Prop :=
  ∀ u, (call u).state.buffer.capacity ≤ u.buffer.capacity

def Action.within (bound : Nat) (other x : Action (InUse σ) β) : Action (InUse σ) β := fun u =>
  if u.buffer.capacity ≤ bound then x u else other u

theorem CountedCall.toCall_within (bound : Nat) (other call : CountedCall σ) :
    CountedCall.toCall (Action.within bound other call) =
      Action.within bound other.toCall call.toCall := by
  funext u
  unfold toCall Action.within
  split <;> rfl

/-- The two run alike from the states with a property, which they keep. -/
def Run.Agree (I : σ → Prop) (x y : Run σ α) : Prop := Run.Same (fun s t => s = t ∧ I s) x y

namespace Run

variable {I : σ → Prop} {x y : Run σ α}

theorem Agree.eq (h : Agree I x y) {s : σ} (hs : I s) : x s = y s := by
  match x s, y s, h s s ⟨rfl, hs⟩ with
  | none, none, .none => rfl
  | some ⟨_, _, _⟩, some ⟨_, _, _⟩, .some ⟨rfl, ⟨rfl, _⟩, rfl⟩ => rfl

theorem Agree.of_keeps {f g : Action σ α} (hsame : ∀ s, I s → f s = g s)
    (hkeeps : ∀ s, I s → I (g s).state) : Agree I (ofAction f) (ofAction g) := by
  apply Same.ofAction
  rintro s _ ⟨rfl, hs⟩
  rw [hsame s hs]
  exact ⟨rfl, ⟨rfl, hkeeps s hs⟩, rfl⟩

end Run

section Bounded

variable {p : SizingPolicy} {alloc : Allocator} {call : Call σ} {bound : Nat}

theorem SizingPolicy.capacity_conclude_le (hcall : call.NeverGrows)
    (hbound : roundToWord p.ceiling ≤ bound) {u : InUse σ} (hu : u.buffer.capacity ≤ bound) :
    (p.conclude alloc (call.attempt u)).state.buffer.capacity ≤ bound := by
  have hleft : (call.attempt u).left.buffer.capacity ≤ bound := Nat.le_trans (hcall u.clear) hu
  cases hvalue : (p.conclude alloc (call.attempt u)).value with
  | none =>
    obtain ⟨b, hb⟩ := enlarged_of_conclude hvalue
    obtain ⟨log, hc⟩ := conclude_of_enlarged hb
    obtain ⟨a, -, -, hgrow⟩ := hb
    have hle := capacity_le_of_grow hgrow
    rw [hc]
    exact Nat.le_trans hle (Nat.max_le.mpr ⟨hleft, hbound⟩)
  | some outcome =>
    have hn : ∀ b, ¬ p.Enlarged alloc (call.attempt u) b := by
      intro b hb
      obtain ⟨log, hc⟩ := conclude_of_enlarged hb
      rw [hc] at hvalue
      cases hvalue
    rw [Buffer.capacity, bytes_conclude hn]
    exact hleft

theorem SizingPolicy.settle_agree (hcall : call.NeverGrows)
    (hbound : roundToWord p.ceiling ≤ bound) (other : Call σ) :
    Run.Agree (·.buffer.capacity ≤ bound) (p.settle alloc (Action.within bound other call))
      (p.settle alloc call) := by
  apply Run.Same.loop
  apply Run.Agree.of_keeps
  · intro u hu
    have hsame : Action.within bound other call u.clear = call u.clear := if_pos hu
    simp only [Call.attempt, hsame]
  · intro u hu
    exact capacity_conclude_le hcall hbound hu

namespace Session

theorem settleOnce_agree (hcall : call.NeverGrows) (hbound : roundToWord p.ceiling ≤ bound)
    (other : Call σ) (decode : Decoder σ α) :
    Run.Agree (·.buffer.capacity ≤ bound)
      (settleOnce p alloc (Action.within bound other call) decode)
      (settleOnce p alloc call decode) := by
  apply Run.Same.bind (SizingPolicy.settle_agree hcall hbound other)
  intro settled
  apply Run.Agree.of_keeps (fun _ _ => rfl)
  intro u hu
  rw [buffer_decodeSettled]
  exact hu

theorem settleBatch_agree (hcall : call.NeverGrows) (hbound : roundToWord p.ceiling ≤ bound)
    (other : Call σ) (decode : Decoder σ (List α)) (items : List α) :
    Run.Agree (·.buffer.capacity ≤ bound)
      (settleBatch p alloc (Action.within bound other call) decode items)
      (settleBatch p alloc call decode items) := by
  apply Run.Same.bind (SizingPolicy.settle_agree hcall hbound other)
  intro settled
  apply Run.Agree.of_keeps (fun _ _ => rfl)
  intro u hu
  rw [buffer_decodeBatch]
  exact hu

theorem readBatch_agree (hcall : call.NeverGrows) (hbound : roundToWord p.ceiling ≤ bound)
    (other : Call σ) (decode : Decoder σ (List α)) :
    Run.Agree (·.used.buffer.capacity ≤ bound)
      (readBatch p alloc (Action.within bound other call) decode)
      (readBatch p alloc call decode) := by
  rintro r _ ⟨rfl, hr⟩
  have hagree : Run.Agree (·.buffer.capacity ≤ bound)
      (settleBatch p alloc (Action.within bound other call) decode r.items)
      (settleBatch p alloc call decode r.items) :=
    settleBatch_agree hcall hbound other decode r.items
  have hbatch := hagree r.used r.used ⟨rfl, hr⟩
  unfold readBatch
  match settleBatch p alloc (Action.within bound other call) decode r.items r.used,
      settleBatch p alloc call decode r.items r.used, hbatch with
  | none, none, .none => exact .none
  | some ⟨.ended outcome, u, log⟩, some ⟨_, _, _⟩, .some ⟨rfl, ⟨rfl, hu⟩, rfl⟩ =>
    exact .some ⟨rfl, ⟨rfl, hu⟩, rfl⟩
  | some ⟨.reading items, u, log⟩, some ⟨_, _, _⟩, .some ⟨rfl, ⟨rfl, hu⟩, rfl⟩ =>
    exact .some ⟨rfl, ⟨rfl, hu⟩, rfl⟩

theorem settleBatches_eq_of_le (hcall : call.NeverGrows) (hbound : roundToWord p.ceiling ≤ bound)
    (other : Call σ) (decode : Decoder σ (List α)) {u : InUse σ} (hu : u.buffer.capacity ≤ bound) :
    settleBatches p alloc (Action.within bound other call) decode u =
      settleBatches p alloc call decode u := by
  have hloop : Run.Agree (·.used.buffer.capacity ≤ bound)
      (Run.loop (readBatch p alloc (Action.within bound other call) decode))
      (Run.loop (readBatch p alloc call decode)) :=
    Run.Same.loop (readBatch_agree hcall hbound other decode)
  rw [settleBatches, settleBatches, hloop.eq hu]

/-- No attempt of the runs finds a larger buffer: whatever the call would do on one makes no
difference to them, whether they end or not. -/
structure AttemptsWithin (p : SizingPolicy) (alloc : Allocator) (n bound : Nat) (call : Call σ)
    (s : Session σ) : Prop where
  single : ∀ {α : Type} (other : Call σ) (decode : Decoder σ α),
    single p alloc n (Action.within bound other call) decode s = single p alloc n call decode s
  enumerate : ∀ {α : Type} (other : Call σ) (decode : Decoder σ (List α)),
    enumerate p alloc n (Action.within bound other call) decode s =
      enumerate p alloc n call decode s

theorem attemptsWithin_of_lease {n : Nat} {s : Session σ} {b : Buffer} {rest : Pool}
    (hcall : call.NeverGrows) (hlease : s.pool.acquire alloc n = (.ok b, rest)) :
    AttemptsWithin p alloc n (max b.capacity (roundToWord p.ceiling)) call s := by
  have hbound : roundToWord p.ceiling ≤ max b.capacity (roundToWord p.ceiling) :=
    Nat.le_max_right _ _
  have hleased : b.capacity ≤ max b.capacity (roundToWord p.ceiling) := Nat.le_max_left _ _
  constructor
  · intro α other decode
    unfold Session.single
    rw [withLease_of_acquire hlease, withLease_of_acquire hlease,
      (settleOnce_agree hcall hbound other decode).eq hleased]
  · intro α other decode
    unfold Session.enumerate
    rw [withLease_of_acquire hlease, withLease_of_acquire hlease,
      settleBatches_eq_of_le hcall hbound other decode hleased]

end Session

/-- A growth is refused exactly at the ceiling and for a report past it; any other one asks for the
one target, which is had whole or not at all. So no attempt of a call that does not itself grow its
buffer finds more room than was leased, or than the ceiling in whole words. -/
theorem growth_exact_and_bounded (hceiling : p.ceiling < sizeLimit) :
    (∀ {σ : Type} (alloc : Allocator) (a : Answer) (u : InUse σ),
      p.Grows alloc a u (p.enlarge alloc a u)) ∧
    (∀ {σ : Type} {alloc : Allocator} {n : Nat} {call : Call σ} {s : Session σ} {b : Buffer}
      {rest : Pool}, call.NeverGrows → s.pool.acquire alloc n = (.ok b, rest) →
        s.AttemptsWithin p alloc n (max b.capacity (roundToWord p.ceiling)) call) ∧
    ∀ {σ : Type} {alloc : Allocator} {chars : Nat} {call : CountedCall σ} {s : Session σ}
      {b : Buffer} {rest : Pool}, call.toCall.NeverGrows →
        s.pool.acquire alloc (saturate (chars * Buffer.unitBytes)) = (.ok b, rest) →
        ∀ other : CountedCall σ,
          Session.counted p alloc chars
              (Action.within (max b.capacity (roundToWord p.ceiling)) other call) s =
            Session.counted p alloc chars call s := by
  refine ⟨p.enlarge_grows hceiling, Session.attemptsWithin_of_lease, ?_⟩
  intro σ alloc chars call s b rest hcall hlease other
  have hwithin := (Session.attemptsWithin_of_lease (p := p) hcall hlease).single other.toCall
    fun b _ => pure (.returned b.text)
  unfold Session.counted
  rw [CountedCall.toCall_within]
  exact hwithin

theorem Call.wanting_neverGrows (n : Nat) : (wanting n).NeverGrows := by
  intro u
  unfold wanting
  split <;> exact Nat.le_refl _

/-- Under a ceiling of 100 bytes, eight bytes are grown to 104 and to no more. -/
theorem growth_exact_and_bounded_wanting :
    100 < sizeLimit ∧ (Call.wanting 100).NeverGrows ∧
      Pool.acquire ⟨fun _ => true⟩ 8 ⟨{}, [Buffer.empty.extend 8 (by decide)]⟩ =
        (.ok (Buffer.empty.extend 8 (by decide)), ⟨{}, []⟩) ∧
      Session.AttemptsWithin ⟨100, 256, by decide⟩ ⟨fun _ => true⟩ 8 104 (Call.wanting 100)
        ⟨⟨{}, [Buffer.empty.extend 8 (by decide)]⟩, ()⟩ ∧
      ∃ b, SizingPolicy.enlarge ⟨100, 256, by decide⟩ ⟨fun _ => true⟩
          ⟨.win32 Win32.insufficientBuffer, 20⟩ ⟨Buffer.empty.extend 8 (by decide), ()⟩ =
          ⟨none, ⟨b, ()⟩, [.growing 8 100 20]⟩ ∧ b.capacity = 104 := by
  have hcapacity : (Buffer.empty.extend 8 (by decide)).capacity = 8 := by
    rw [Buffer.capacity_extend_empty]
    rfl
  have hlease : Pool.acquire ⟨fun _ => true⟩ 8 ⟨{}, [Buffer.empty.extend 8 (by decide)]⟩ =
      (.ok (Buffer.empty.extend 8 (by decide)), ⟨{}, []⟩) :=
    Pool.acquire_singleton ⟨fun _ => true⟩ {} (Nat.le_of_eq hcapacity.symm)
  obtain ⟨hgrows, hruns, -⟩ := growth_exact_and_bounded (p := ⟨100, 256, by decide⟩) (by decide)
  refine ⟨by decide, Call.wanting_neverGrows 100, hlease, ?_, ?_⟩
  · have hwithin : Session.AttemptsWithin ⟨100, 256, by decide⟩ ⟨fun _ => true⟩ 8
        (max (Buffer.empty.extend 8 (by decide)).capacity (roundToWord 100)) (Call.wanting 100)
        ⟨⟨{}, [Buffer.empty.extend 8 (by decide)]⟩, ()⟩ :=
      hruns (Call.wanting_neverGrows 100) hlease
    rwa [hcapacity] at hwithin
  · have hended := hgrows ⟨fun _ => true⟩ ⟨.win32 Win32.insufficientBuffer, 20⟩
      ⟨Buffer.empty.extend 8 (by decide), ()⟩
    generalize SizingPolicy.enlarge _ _ _ _ = e at hended ⊢
    cases hended with
    | refused hstop _ _ =>
      simp only [hcapacity] at hstop
      omega
    | unprovided _ _ _ hfault _ _ =>
      simp only [hcapacity] at hfault
      exact absurd rfl hfault
    | @grown b _ _ _ _ hextends _ =>
      have hgrown := hextends.capacity
      simp only [hcapacity] at hgrown ⊢
      exact ⟨b, rfl, hgrown⟩

end Bounded

end NativeResource

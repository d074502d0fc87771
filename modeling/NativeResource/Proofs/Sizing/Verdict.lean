import NativeResource.Proofs.Code.Kind
import NativeResource.Proofs.Sizing.Termination
/-!
What a single run returns once it has its lease. The call is tried until its answer is anything but
"too small" or the buffer cannot be grown, and the last attempt alone decides the rest: a success
that fits is decoded, once, and nothing else is.
-/
namespace NativeResource

variable {σ τ α ν : Type} {p : SizingPolicy} {alloc : Allocator} {call : Call σ}

def Decoder.Besides (decode : Decoder σ α) (f : σ → τ) (other : Decoder τ α) : Prop :=
  ∀ b n s, other b n (f s) = (decode b n s).onState f

namespace Session

/-- How a single run ends after its last attempt: what it returns, how it leaves the caller's
state, and the buffers and sizes that were decoded. -/
inductive Verdict (p : SizingPolicy) (alloc : Allocator) (decode : Decoder σ α)
    (last : Attempt σ) : Outcome α → σ → List (Buffer × Nat) → Prop where
  | decoded {a : Answer} {b : Buffer} : last.answer = some a → a.code.signal = .success →
      a.size ≤ last.left.buffer.capacity → b.bytes = last.left.buffer.bytes → b.length = a.size →
      Verdict p alloc decode last (decode b a.size last.left.state).value
        (decode b a.size last.left.state).state [(b, a.size)]
  | tooLong {a : Answer} {f : Failure} : last.answer = some a →
      a.code.signal = .success ∨ a.code.signal = .moreEntries →
      last.left.buffer.capacity < a.size → f.kind = .invalidArgument → f.code = none →
      Verdict p alloc decode last (.failed f) last.left.state []
  | more {a : Answer} {f : Failure} : last.answer = some a → a.code.signal = .moreEntries →
      a.size ≤ last.left.buffer.capacity → f.kind = .unsupported → f.code = some a.code →
      Verdict p alloc decode last (.failed f) last.left.state []
  | exhausted {a : Answer} {f : Failure} : last.answer = some a →
      a.code.signal = .noMoreEntries → f.kind = .notFound → f.code = some a.code →
      Verdict p alloc decode last (.failed f) last.left.state []
  | reported {a : Answer} {f : Failure} : last.answer = some a → a.code.signal = .failure →
      f.kind = a.code.kind → f.code = some a.code →
      Verdict p alloc decode last (.failed f) last.left.state []
  | refused {a : Answer} {f : Failure} : last.answer = some a →
      a.code.signal = .insufficientBuffer →
      p.ceiling ≤ last.left.buffer.capacity ∨ p.ceiling < a.size →
      f.kind = .outOfMemory → f.code = some a.code →
      Verdict p alloc decode last (.failed f) last.left.state []
  | unprovided {a : Answer} {f : Failure} {target : Nat} {fault : AllocationFault} :
      last.answer = some a → a.code.signal = .insufficientBuffer →
      p.target? last.left.buffer.capacity a.size = some target →
      alloc.fault? (roundToWord target) = some fault →
      f.kind = .outOfMemory → f.code = none →
      Verdict p alloc decode last (.failed f) last.left.state []
  | unwound : last.answer = none → Verdict p alloc decode last .panicked last.left.state []

variable {decode : Decoder σ α} {x last : Attempt σ}

/-- Only the decoder can tell the caller that its buffer is too small. -/
theorem Verdict.kind_ne_insufficientBuffer {outcome : Outcome α} {state : σ} {f : Failure}
    (h : Verdict p alloc decode last outcome state []) (hf : outcome = .failed f) :
    f.kind ≠ .insufficientBuffer := by
  intro hk
  cases h with
  | tooLong _ _ _ hkind _ | more _ _ _ hkind _ | exhausted _ _ hkind _ | refused _ _ _ hkind _
  | unprovided _ _ _ _ hkind _ =>
    cases hf
    rw [hkind] at hk
    cases hk
  | reported _ hs hkind _ =>
    cases hf
    rw [hkind] at hk
    refine Code.kind_ne_insufficientBuffer ?_ hk
    rw [hs]
    exact nofun
  | unwound _ => cases hf

def decodings (settled : Outcome Settled) (u : InUse σ) : List (Buffer × Nat) :=
  match settled with
  | .returned .complete => [(u.buffer, u.buffer.length)]
  | _ => []

theorem decodeSettled_observed (o : Observer ν) (decode : Decoder σ α)
    (settled : Outcome Settled) (u : InUse σ) (notes : List ν) :
    decodeSettled (decode.observed o) settled (u.noted notes) =
      (decodeSettled decode settled u).onState
        (InUse.noted ((decodings settled u).map (fun d => o.decoding d.1 d.2) ++ notes)) := by
  cases settled with
  | returned s => cases s <;> rfl
  | failed | panicked => rfl

theorem Verdict.of_respond {a : Answer} (ha : x.answer = some a)
    (hs : a.code.signal ≠ .insufficientBuffer) :
    ∃ settled, (p.respond alloc a x.left).value = some settled ∧
      Verdict p alloc decode x
        (decodeSettled decode settled (p.respond alloc a x.left).state).value
        (decodeSettled decode settled (p.respond alloc a x.left).state).state.state
        (decodings settled (p.respond alloc a x.left).state) := by
  have hfits := Nat.lt_or_ge x.left.buffer.capacity a.size
  cases hsignal : a.code.signal with
  | insufficientBuffer => exact absurd hsignal hs
  | success =>
    rcases hfits with hlt | hle
    · have hset := Buffer.setLength_of_lt hlt
      simp only [SizingPolicy.respond, hsignal, Settled.produce, hset]
      exact ⟨_, rfl, .tooLong ha (.inl hsignal) hlt rfl rfl⟩
    · obtain ⟨b, hset, hlength, hbytes⟩ := Buffer.setLength_of_le hle
      simp only [SizingPolicy.respond, hsignal, Settled.produce, hset]
      refine ⟨_, rfl, ?_⟩
      simp only [decodeSettled, decodeBuffer, decodings, hlength]
      exact .decoded ha hsignal hle hbytes hlength
  | moreEntries =>
    rcases hfits with hlt | hle
    · have hset := Buffer.setLength_of_lt hlt
      simp only [SizingPolicy.respond, hsignal, Settled.produce, hset]
      exact ⟨_, rfl, .tooLong ha (.inr hsignal) hlt rfl rfl⟩
    · obtain ⟨b, hset, -, -⟩ := Buffer.setLength_of_le hle
      simp only [SizingPolicy.respond, hsignal, Settled.produce, hset]
      exact ⟨_, rfl, .more ha hsignal hle rfl rfl⟩
  | noMoreEntries =>
    simp only [SizingPolicy.respond, hsignal]
    exact ⟨_, rfl, .exhausted ha hsignal (Code.kind_of_noMoreEntries hsignal) rfl⟩
  | failure =>
    simp only [SizingPolicy.respond, hsignal]
    exact ⟨_, rfl, .reported ha hsignal rfl rfl⟩

theorem Verdict.of_grow {a : Answer} {f : Failure} (ha : x.answer = some a)
    (hs : a.code.signal = .insufficientBuffer)
    (hg : (p.grow alloc a x.left.buffer).result = .error f) :
    Verdict p alloc decode x (.failed f) x.left.state [] := by
  rcases SizingPolicy.grow_error hg with ⟨rfl, hceiling⟩ | ⟨target, fault, ht, hfault, rfl⟩
  · exact .refused ha hs hceiling rfl rfl
  · exact .unprovided ha hs ht hfault rfl rfl

theorem Verdict.of_not_enlarged (hn : ∀ b, ¬ p.Enlarged alloc x b) :
    ∃ settled, (p.conclude alloc x).value = some settled ∧
      Verdict p alloc decode x
        (decodeSettled decode settled (p.conclude alloc x).state).value
        (decodeSettled decode settled (p.conclude alloc x).state).state.state
        (decodings settled (p.conclude alloc x).state) := by
  cases ha : x.answer with
  | none =>
    simp only [SizingPolicy.conclude, ha]
    exact ⟨_, rfl, .unwound ha⟩
  | some a =>
    simp only [SizingPolicy.conclude, ha, Effect.value_after, Effect.state_after]
    by_cases hs : a.code.signal = .insufficientBuffer
    · cases hg : (p.grow alloc a x.left.buffer).result with
      | ok b => exact absurd ⟨a, ha, hs, hg⟩ (hn b)
      | error f =>
        simp only [SizingPolicy.respond, hs, SizingPolicy.enlarge, hg]
        exact ⟨_, rfl, Verdict.of_grow ha hs hg⟩
    · exact Verdict.of_respond ha hs

theorem single_of_lease {s : Session σ} {n : Nat} {b : Buffer} {rest : Pool}
    (h : s.pool.acquire alloc n = (.ok b, rest)) :
    single p alloc n call decode s =
      (settleOnce p alloc call decode ⟨b, s.state⟩).map (giveBack rest) :=
  withLease_of_acquire h

theorem settleOnce_of_settle {u : InUse σ} {e : Effect (InUse σ) (Outcome Settled)}
    (h : p.settle alloc call u = some e) :
    settleOnce p alloc call decode u =
      some ((decodeSettled decode e.value e.state).after e.log) :=
  Run.bind_eq_some.mpr ⟨e, _, h, rfl, rfl⟩

theorem settleOnce_eq_none {u : InUse σ} (h : p.settle alloc call u = none) :
    settleOnce p alloc call decode u = none := by
  cases hrun : settleOnce p alloc call decode u with
  | none => rfl
  | some e =>
    obtain ⟨first, -, hfirst, -⟩ := Run.bind_eq_some.mp hrun
    rw [h] at hfirst
    cases hfirst

theorem decodeSettled_besides {f : σ → τ} {other : Decoder τ α} (h : decode.Besides f other)
    (settled : Outcome Settled) (u : InUse σ) :
    decodeSettled other settled (u.mapState f) =
      (decodeSettled decode settled u).onState (InUse.mapState f) := by
  cases settled with
  | returned s =>
    cases s with
    | complete =>
      have hdecode := h u.buffer u.buffer.length u.state
      simp only [decodeSettled, decodeBuffer, InUse.mapState, hdecode]
      rfl
    | more | exhausted => rfl
  | failed | panicked => rfl

theorem single_noted {note : Attempt σ → ν} {place : List ν → σ → τ} {call' : Call τ}
    {decode' : Decoder τ α} {s : Session σ} {n : Nat} {b : Buffer} {rest : Pool}
    {earlier : List (Attempt σ)} {e : Effect (Session σ) (Outcome α)}
    (hlease : s.pool.acquire alloc n = (.ok b, rest))
    (hcourse : Course p alloc call ⟨b, s.state⟩ earlier last)
    (he : single p alloc n call decode s = some e) (hcall : call.NotedBy note place call')
    (hdecode : ∀ notes, decode.Besides (place notes) decode') (notes : List ν) :
    single p alloc n call' decode' (s.mapState (place notes)) =
      some (e.onState (Session.mapState
        (place (((earlier ++ [last]).map note).reverse ++ notes)))) := by
  obtain ⟨settled, hsettled, -⟩ := hcourse.settle_eq
  have hnoted := hcourse.settle_noted hcall notes
  rw [hsettled] at hnoted
  rw [single_of_lease hlease, settleOnce_of_settle hsettled] at he
  cases he
  have hrun : single p alloc n call' decode' (s.mapState (place notes)) =
      (settleOnce p alloc call' decode' (InUse.mapState (place notes) ⟨b, s.state⟩)).map
        (giveBack rest) := single_of_lease hlease
  rw [hrun, settleOnce_of_settle hnoted]
  have hdecoded := decodeSettled_besides (hdecode (((earlier ++ [last]).map note).reverse ++ notes))
    settled.value settled.state
  exact congrArg (fun d => some (giveBack rest (d.after settled.log))) hdecoded

theorem single_ends_iff {s : Session σ} {n : Nat} {b : Buffer} {rest : Pool}
    (hlease : s.pool.acquire alloc n = (.ok b, rest)) :
    (∃ e, single p alloc n call decode s = some e) ↔
      ∃ earlier last, Course p alloc call ⟨b, s.state⟩ earlier last := by
  rw [single_of_lease hlease]
  constructor
  · rintro ⟨e, he⟩
    cases hsettle : p.settle alloc call ⟨b, s.state⟩ with
    | none =>
      rw [settleOnce_eq_none hsettle] at he
      cases he
    | some e => exact Course.exists_of_settle hsettle
  · rintro ⟨earlier, last, hcourse⟩
    obtain ⟨e, he, -⟩ := hcourse.settle_eq
    rw [settleOnce_of_settle he]
    exact ⟨_, rfl⟩

/-- The account of a single run on a leased buffer: the attempts by which the call was settled, the
verdict on the last one, and that every observer of the call and the decoder notes those attempts
in order and then what was decoded, and nothing else. -/
structure SingleRun (p : SizingPolicy) (alloc : Allocator) (n : Nat) (call : Call σ)
    (decode : Decoder σ α) (s : Session σ) (b : Buffer) (e : Effect (Session σ) (Outcome α))
    (earlier : List (Attempt σ)) (last : Attempt σ) (decoded : List (Buffer × Nat)) : Prop where
  course : Course p alloc call ⟨b, s.state⟩ earlier last
  emptied : ∀ x ∈ earlier ++ [last], x.found.buffer.length = 0
  verdict : Verdict p alloc decode last e.value e.state.state decoded
  noted : ∀ {ν : Type} (o : Observer ν) (notes : List ν),
    single p alloc n (call.observed o) (decode.observed o) (s.noted notes) =
      some (e.onState (Session.noted (decoded.map (fun d => o.decoding d.1 d.2) ++
        ((earlier ++ [last]).map o.ofAttempt).reverse ++ notes)))
  not_insufficientBuffer : decoded = [] → ∀ f, e.value = .failed f → f.kind ≠ .insufficientBuffer

theorem SingleRun.of_course {s : Session σ} {n : Nat} {b : Buffer} {rest : Pool}
    {earlier : List (Attempt σ)} {e : Effect (Session σ) (Outcome α)}
    (hlease : s.pool.acquire alloc n = (.ok b, rest))
    (hcourse : Course p alloc call ⟨b, s.state⟩ earlier last)
    (he : single p alloc n call decode s = some e) :
    ∃ decoded, SingleRun p alloc n call decode s b e earlier last decoded := by
  obtain ⟨settled, hsettled, hyields⟩ := hcourse.settle_eq
  obtain ⟨outcome, hvalue, hverdict⟩ := Verdict.of_not_enlarged hcourse.last_not_enlarged
  rw [hyields.value] at hvalue
  cases hvalue
  rw [← hyields.state] at hverdict
  rw [single_of_lease hlease, settleOnce_of_settle hsettled] at he
  cases he
  refine ⟨decodings settled.value settled.state, hcourse, hcourse.length_found, hverdict, ?_, ?_⟩
  · intro ν o notes
    have hobserved := hcourse.settle_observed o notes
    rw [hsettled] at hobserved
    have hrun : single p alloc n (call.observed o) (decode.observed o) (s.noted notes) =
        (settleOnce p alloc (call.observed o) (decode.observed o)
          (InUse.noted notes ⟨b, s.state⟩)).map (giveBack rest) := single_of_lease hlease
    rw [hrun, settleOnce_of_settle hobserved]
    have hdecode := decodeSettled_observed o decode settled.value settled.state
      (((earlier ++ [last]).map o.ofAttempt).reverse ++ notes)
    rw [List.append_assoc]
    exact congrArg (fun d => some (giveBack rest (d.after settled.log))) hdecode
  · intro hnone f hf
    rw [hnone] at hverdict
    exact hverdict.kind_ne_insufficientBuffer hf

/-- Once a single run has its lease, a course of its call is the course that it takes. -/
theorem SingleRun.exists_of_course {s : Session σ} {n : Nat} {b : Buffer} {rest : Pool}
    {earlier : List (Attempt σ)} (decode : Decoder σ α)
    (hlease : s.pool.acquire alloc n = (.ok b, rest))
    (hcourse : Course p alloc call ⟨b, s.state⟩ earlier last) :
    ∃ e decoded, single p alloc n call decode s = some e ∧
      SingleRun p alloc n call decode s b e earlier last decoded := by
  have hends : ∃ e, single p alloc n call decode s = some e :=
    (single_ends_iff hlease).mpr ⟨earlier, last, hcourse⟩
  obtain ⟨e, he⟩ := hends
  obtain ⟨decoded, hrun⟩ := of_course hlease hcourse he
  exact ⟨e, decoded, he, hrun⟩

/-- Once a single run has its lease, it ends if the call never lowers the capacity, and whenever it
ends its last attempt decides what it returns. -/
theorem single_decided_by_last_attempt (p : SizingPolicy) (call : Call σ) (decode : Decoder σ α)
    {s : Session σ} {n : Nat} {b : Buffer} {rest : Pool}
    (hlease : s.pool.acquire alloc n = (.ok b, rest)) :
    (∀ e, single p alloc n call decode s = some e →
      ∃ earlier last decoded, SingleRun p alloc n call decode s b e earlier last decoded) ∧
    ((∃ e, single p alloc n call decode s = some e) ↔
      ∃ earlier last, Course p alloc call ⟨b, s.state⟩ earlier last) ∧
    (call.NeverShrinks → ∃ e, single p alloc n call decode s = some e) := by
  refine ⟨?_, single_ends_iff hlease, ?_⟩
  · intro e he
    obtain ⟨earlier, last, hcourse⟩ := (single_ends_iff hlease).mp ⟨e, he⟩
    obtain ⟨decoded, hrun⟩ := SingleRun.of_course hlease hcourse he
    exact ⟨earlier, last, decoded, hrun⟩
  · intro hcall
    exact (single_ends_iff hlease).mpr (Course.exists_of_neverShrinks p alloc hcall _)

theorem single_decided_by_last_attempt_wanting :
    Pool.acquire ⟨fun _ => true⟩ 0 ⟨{}, []⟩ = (.ok .empty, ⟨{}, []⟩) ∧
      ∃ e earlier last decoded,
        SingleRun {} ⟨fun _ => true⟩ 0 (Call.wanting 100) (fun _ size => pure (.returned size))
          ⟨⟨{}, []⟩, ()⟩ .empty e earlier last decoded := by
  have hlease : Pool.acquire ⟨fun _ => true⟩ 0 ⟨{}, []⟩ = (.ok .empty, ⟨{}, []⟩) := rfl
  obtain ⟨hruns, -, hends⟩ := single_decided_by_last_attempt {} (Call.wanting 100)
    (fun _ size => pure (.returned size)) (s := ⟨⟨{}, []⟩, ()⟩) hlease
  obtain ⟨e, he⟩ := hends (Call.wanting_neverShrinks 100)
  exact ⟨hlease, e, hruns e he⟩

end Session

end NativeResource

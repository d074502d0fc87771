import NativeResource.Broker.Query
import NativeResource.Host.Observer
/-!
What is asked of an observed host. The calls that an action makes are those it adds to the calls
kept in its state; a condition on calls that holds of every part of an action holds of the whole,
through sequences, loops, the sizing of buffers and the runs over a pool.
-/
namespace NativeResource

variable {σ ν ω α β : Type}

def Broker.observed (b : Broker ω) : Broker (ω × List Exchange) :=
  ⟨b.host.observed, b.allocator, b.policy⟩

/-- From one state to the other only calls of a kind were made; `seen` finds the calls of a state,
the latest first. -/
def CallsOnly (seen : σ → List Exchange) (P : Request → Prop) (s t : σ) : Prop :=
  ∃ more, seen t = more ++ seen s ∧ ∀ x ∈ more, P x.request

def besideNote (seen : σ → List Exchange) (s : σ × ν) : List Exchange := seen s.1

def Action.Asks (seen : σ → List Exchange) (P : Request → Prop) (x : Action σ α) : Prop :=
  ∀ s, CallsOnly seen P s (x s).state

def Run.Asks (seen : σ → List Exchange) (P : Request → Prop) (x : Run σ α) : Prop :=
  ∀ s e, x s = some e → CallsOnly seen P s e.state

variable {seen : σ → List Exchange} {P Q : Request → Prop}

namespace CallsOnly

theorem of_eq {s t : σ} (h : seen t = seen s) : CallsOnly seen P s t := by
  refine ⟨[], h, ?_⟩
  intro x hx
  cases hx

theorem refl (s : σ) : CallsOnly seen P s s := of_eq rfl

theorem trans {s t u : σ} (h : CallsOnly seen P s t) (h' : CallsOnly seen P t u) :
    CallsOnly seen P s u := by
  obtain ⟨first, ht, hfirst⟩ := h
  obtain ⟨second, hu, hsecond⟩ := h'
  refine ⟨second ++ first, by rw [hu, ht, List.append_assoc], ?_⟩
  intro x hx
  rcases List.mem_append.mp hx with hx | hx
  · exact hsecond x hx
  · exact hfirst x hx

theorem mono {s t : σ} (h : CallsOnly seen P s t) (hPQ : ∀ r, P r → Q r) :
    CallsOnly seen Q s t := by
  obtain ⟨more, ht, hmore⟩ := h
  exact ⟨more, ht, fun x hx => hPQ x.request (hmore x hx)⟩

end CallsOnly

namespace Action

theorem asks_pure (a : α) : Asks seen P (pure a : Action σ α) := fun s => .refl s

/-- What follows an action need only be looked at for the values that the action can give. -/
theorem asks_bind_value {x : Action σ α} {f : α → Action σ β} (hx : x.Asks seen P)
    (hf : ∀ s, (f (x s).value).Asks seen P) : (x >>= f).Asks seen P := by
  intro s
  exact (hx s).trans (hf s (x s).state)

theorem asks_bind {x : Action σ α} {f : α → Action σ β} (hx : x.Asks seen P)
    (hf : ∀ a, (f a).Asks seen P) : (x >>= f).Asks seen P :=
  asks_bind_value hx fun s => hf (x s).value

theorem asks_report (e : Event) : (report e : Action σ Unit).Asks seen P := fun s => .refl s

theorem asks_quiet {f : σ → α × σ} (h : ∀ s, seen (f s).2 = seen s) : (quiet f).Asks seen P :=
  fun s => .of_eq (h s)

theorem asks_onFirst {x : Action σ α} (hx : x.Asks seen P) :
    (onFirst x : Action (σ × ν) α).Asks (besideNote seen) P :=
  fun s => hx s.1

theorem asks_note (n : ν) : (note n : Action (σ × ν) Unit).Asks (besideNote seen) P :=
  asks_quiet fun _ => rfl

theorem asks_noted : (noted : Action (σ × ν) ν).Asks (besideNote seen) P :=
  asks_quiet fun _ => rfl

end Action

namespace Host

theorem asks_ask (host : Host ω) {r : Request} (hr : P r) :
    (host.observed.ask r).Asks Prod.snd P := by
  intro w
  refine ⟨[⟨r, (host.perform r w.1).1⟩], rfl, ?_⟩
  intro x hx
  cases List.mem_singleton.mp hx
  exact hr

theorem asks_lastCode (host : Host (ω × List Exchange)) : host.lastCode.Asks Prod.snd P :=
  Action.asks_quiet fun _ => rfl

theorem asks_failLast (host : Host (ω × List Exchange)) :
    (host.failLast : Action _ (Except Failure α)).Asks Prod.snd P :=
  Action.asks_bind host.asks_lastCode fun _ => Action.asks_pure _

theorem asks_checkFlag (host : Host (ω × List Exchange)) (ok : Bool) :
    (host.checkFlag ok).Asks Prod.snd P := by
  unfold checkFlag
  split
  · exact Action.asks_pure _
  · exact host.asks_failLast

end Host

namespace Run

theorem asks_pure (a : α) : Asks seen P (pure a : Run σ α) := by
  intro s e he
  cases he
  exact .refl s

theorem asks_ofAction {x : Action σ α} (hx : x.Asks seen P) : (ofAction x).Asks seen P := by
  intro s e he
  cases he
  exact hx s

theorem asks_bind {x : Run σ α} {f : α → Run σ β} (hx : x.Asks seen P)
    (hf : ∀ a, (f a).Asks seen P) : (x >>= f).Asks seen P := by
  intro s e he
  obtain ⟨first, second, hfirst, hsecond, rfl⟩ := bind_eq_some.mp he
  exact (hx s first hfirst).trans (hf first.value first.state second hsecond)

theorem asks_loop {step : Run σ (Option β)} (hstep : step.Asks seen P) :
    Run.Asks seen P (loop step) := by
  intro s e he
  refine loop_induction (motive := fun s e => CallsOnly seen P s e.state) ?_ ?_ he
  · intro s b t log hlast
    exact hstep s _ hlast
  · intro s t log e hagain ih
    exact (hstep s _ hagain).trans ih

end Run

/-! ### Sizing -/

section Sizing

variable {call : Call σ}

theorem SizingPolicy.state_conclude (p : SizingPolicy) (alloc : Allocator) (x : Attempt σ) :
    (p.conclude alloc x).state.state = x.left.state := by
  unfold conclude
  cases x.answer with
  | none => rfl
  | some a =>
    rw [Effect.state_after, respond]
    cases a.code.signal with
    | insufficientBuffer =>
      simp only [enlarge]
      cases (p.grow alloc a x.left.buffer).result <;> rfl
    | success | moreEntries =>
      simp only [Settled.produce]
      cases x.left.buffer.setLength a.size <;> rfl
    | noMoreEntries | failure => rfl

theorem SizingPolicy.asks_settle (p : SizingPolicy) (alloc : Allocator)
    (hcall : call.Asks (fun u => seen u.state) P) :
    (p.settle alloc call).Asks (fun u => seen u.state) P := by
  apply Run.asks_loop
  apply Run.asks_ofAction
  intro u
  obtain ⟨more, hmore, hP⟩ := hcall u.clear
  exact ⟨more, (congrArg seen (p.state_conclude alloc (call.attempt u))).trans hmore, hP⟩

theorem Call.asks_filling {fill : Buffer → Action σ Filling} (h : ∀ b, (fill b).Asks seen P) :
    (Call.filling fill).Asks (fun u => seen u.state) P :=
  fun u => h u.buffer u.state

theorem CountedCall.asks_filling {fill : Buffer → Action σ (ByteArray × Except Code UInt32)}
    (h : ∀ b, (fill b).Asks seen P) :
    (CountedCall.filling fill).Asks (fun u => seen u.state) P :=
  fun u => h u.buffer u.state

end Sizing

/-! ### Runs over a pool -/

namespace Session

variable {p : SizingPolicy} {alloc : Allocator} {call : Call σ} {n : Nat}

theorem asks_withLease {refused : Failure → β} {use : Run (InUse σ) β}
    (h : use.Asks (fun u => seen u.state) P) :
    (withLease alloc n refused use).Asks (fun s => seen s.state) P := by
  intro s e he
  unfold withLease at he
  split at he
  · cases he
    exact .of_eq rfl
  · obtain ⟨used, hused, rfl⟩ := Option.map_eq_some_iff.mp he
    exact h _ used hused

theorem asks_decodeBuffer {decode : Decoder σ α} (h : ∀ b n, (decode b n).Asks seen P) :
    (decodeBuffer decode).Asks (fun u => seen u.state) P :=
  fun u => h u.buffer u.buffer.length u.state

theorem asks_decodeSettled {decode : Decoder σ α} (h : ∀ b n, (decode b n).Asks seen P)
    (settled : Outcome Settled) :
    (decodeSettled decode settled).Asks (fun u => seen u.state) P := by
  cases settled with
  | returned s =>
    cases s with
    | complete => exact asks_decodeBuffer h
    | more | exhausted => exact Action.asks_pure _
  | failed | panicked => exact Action.asks_pure _

theorem asks_single {decode : Decoder σ α} (hcall : call.Asks (fun u => seen u.state) P)
    (hdecode : ∀ b n, (decode b n).Asks seen P) :
    (single p alloc n call decode).Asks (fun s => seen s.state) P := by
  apply asks_withLease
  apply Run.asks_bind (p.asks_settle alloc hcall)
  intro settled
  exact Run.asks_ofAction (asks_decodeSettled hdecode settled)

theorem asks_decodeBatch {decode : Decoder σ (List α)} (h : ∀ b n, (decode b n).Asks seen P)
    (items : List α) (settled : Outcome Settled) :
    (decodeBatch decode items settled).Asks (fun u => seen u.state) P := by
  cases settled with
  | returned s =>
    cases s with
    | complete =>
      apply Action.asks_bind (asks_decodeBuffer h)
      intro outcome
      cases outcome with
      | returned last => exact Action.asks_bind (Action.asks_report _) fun _ => Action.asks_pure _
      | failed | panicked => exact Action.asks_pure _
    | more =>
      apply Action.asks_bind (asks_decodeBuffer h)
      intro outcome
      cases outcome with
      | returned | failed | panicked => exact Action.asks_pure _
    | exhausted => exact Action.asks_bind (Action.asks_report _) fun _ => Action.asks_pure _
  | failed | panicked => exact Action.asks_pure _

theorem asks_readBatch {decode : Decoder σ (List α)}
    (hcall : call.Asks (fun u => seen u.state) P) (hdecode : ∀ b n, (decode b n).Asks seen P) :
    (readBatch p alloc call decode).Asks (fun r => seen r.used.state) P := by
  intro r e he
  have hbatch : (settleBatch p alloc call decode r.items).Asks (fun u => seen u.state) P := by
    apply Run.asks_bind (p.asks_settle alloc hcall)
    intro settled
    exact Run.asks_ofAction (asks_decodeBatch hdecode r.items settled)
  obtain ⟨batch, hsettled, he⟩ := Option.bind_eq_some_iff.mp he
  have hcalls := hbatch r.used batch hsettled
  cases hvalue : batch.value with
  | ended | reading =>
    simp only [hvalue, Option.some.injEq] at he
    rw [← he]
    exact hcalls

theorem asks_enumerate {decode : Decoder σ (List α)}
    (hcall : call.Asks (fun u => seen u.state) P) (hdecode : ∀ b n, (decode b n).Asks seen P) :
    (enumerate p alloc n call decode).Asks (fun s => seen s.state) P := by
  apply asks_withLease
  intro u e he
  obtain ⟨read, hread, rfl⟩ := Option.map_eq_some_iff.mp he
  exact Run.asks_loop (asks_readBatch hcall hdecode) ⟨[], u⟩ read hread

theorem asks_withNote {x : Run (Session (σ × ν)) α} (n : ν)
    (h : x.Asks (fun s => besideNote seen s.state) P) :
    (withNote n x).Asks (fun s => seen s.state) P := by
  intro s e he
  obtain ⟨noted, hnoted, he⟩ := Option.bind_eq_some_iff.mp he
  cases he
  exact h _ noted hnoted

end Session

end NativeResource

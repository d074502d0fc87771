import NativeResource.Proofs.Pool.Alike
import NativeResource.Proofs.Sizing.Observation
/-!
Two runs side by side. Runs from related states are alike if they give the same value, report the
same and leave related states, or if neither ends; likeness passes through composition and through
loops. The runs over a session are alike on sessions whose pools are, for calls and decoders that
themselves are alike on buffers that read alike.
-/
namespace NativeResource

variable {σ τ α β ν : Type}

structure Effect.Same (R : σ → τ → Prop) (e : Effect σ α) (e' : Effect τ α) : Prop where
  value : e.value = e'.value
  state : R e.state e'.state
  log : e.log = e'.log

theorem Effect.Same.after {R : σ → τ → Prop} {e : Effect σ α} {e' : Effect τ α}
    (h : e.Same R e') (log : List Event) : (e.after log).Same R (e'.after log) := by
  refine ⟨h.value, h.state, ?_⟩
  rw [Effect.log_after, Effect.log_after, h.log]

theorem Effect.Same.symm {R : σ → τ → Prop} {e : Effect σ α} {e' : Effect τ α}
    (h : e.Same R e') : e'.Same (flip R) e := ⟨h.value.symm, h.state, h.log.symm⟩

def Action.Same (R : σ → τ → Prop) (x : Action σ α) (y : Action τ α) : Prop :=
  ∀ s t, R s t → (x s).Same R (y t)

/-- From related states, the two runs have the same effect, or neither ends. -/
def Run.Same (R : σ → τ → Prop) (x : Run σ α) (y : Run τ α) : Prop :=
  ∀ s t, R s t → Option.Rel (Effect.Same R) (x s) (y t)

namespace Action.Same

variable {R : σ → τ → Prop} {x : Action σ α} {y : Action τ α}

theorem pure (a : α) : Same R (Pure.pure a : Action σ α) (Pure.pure a : Action τ α) :=
  fun _ _ hst => ⟨rfl, hst, rfl⟩

theorem report (e : Event) : Same R (Action.report e) (Action.report e) :=
  fun _ _ hst => ⟨rfl, hst, rfl⟩

theorem bind {f : α → Action σ β} {g : α → Action τ β} (hx : Same R x y)
    (hf : ∀ a, Same R (f a) (g a)) : Same R (x >>= f) (y >>= g) := by
  intro s t hst
  have hfirst := hx s t hst
  have hsecond := hf (x s).value _ _ hfirst.state
  rw [bind_apply, bind_apply, ← hfirst.value, ← hfirst.log, ← hsecond.value, ← hsecond.log]
  exact ⟨rfl, hsecond.state, rfl⟩

end Action.Same

namespace Run

variable {R : σ → τ → Prop}

theorem Same.ofAction {x : Action σ α} {y : Action τ α} (h : Action.Same R x y) :
    Same R (Run.ofAction x) (Run.ofAction y) :=
  fun s t hst => .some (h s t hst)

theorem Same.flip {x : Run σ α} {y : Run τ α} (h : Same R x y) : Same (flip R) y x := by
  intro t s hst
  match x s, y t, h s t hst with
  | none, none, .none => exact .none
  | some e, some e', .some hsame => exact .some hsame.symm

theorem Same.exists_some {x : Run σ α} {y : Run τ α} {s : σ} {t : τ} {e : Effect σ α}
    (h : Same R x y) (hst : R s t) (he : x s = some e) : ∃ e', y t = some e' ∧ e.Same R e' := by
  have hrel := h s t hst
  rw [he] at hrel
  match y t, hrel with
  | some e', .some hsame => exact ⟨e', rfl, hsame⟩

theorem Same.bind {x : Run σ α} {y : Run τ α} {f : α → Run σ β} {g : α → Run τ β}
    (hx : Same R x y) (hf : ∀ a, Same R (f a) (g a)) : Same R (x >>= f) (y >>= g) := by
  intro s t hst
  change Option.Rel _ ((x s).bind _) ((y t).bind _)
  match x s, y t, hx s t hst with
  | none, none, .none => exact .none
  | some first, some first', .some hfirst =>
    have hrest := hf first.value _ _ hfirst.state
    simp only [Option.bind_some, ← hfirst.value, ← hfirst.log]
    match f first.value first.state, g first.value first'.state, hrest with
    | none, none, .none => exact .none
    | some second, some second', .some hsecond => exact .some (hsecond.after first.log)

variable {x : Run σ (Option β)} {y : Run τ (Option β)}

/-- A loop that ends is matched step for step by the other one. -/
theorem Same.exists_loop (h : Same R x y) {s : σ} {e : Effect σ β} (hloop : loop x s = some e) :
    ∀ t, R s t → ∃ e', loop y t = some e' ∧ e.Same R e' := by
  refine loop_induction
    (motive := fun s e => ∀ t, R s t → ∃ e', loop y t = some e' ∧ e.Same R e') ?_ ?_ hloop
  · intro s b s' log hstep t hst
    obtain ⟨⟨value, t', log'⟩, hstep', hsame⟩ := h.exists_some hst hstep
    cases hsame.value
    exact ⟨_, loop_of_done hstep', rfl, hsame.state, hsame.log⟩
  · intro s s' log e hstep ih t hst
    obtain ⟨⟨value, t', log'⟩, hstep', hsame⟩ := h.exists_some hst hstep
    cases hsame.value
    cases hsame.log
    obtain ⟨e', he', hrest⟩ := ih t' hsame.state
    refine ⟨e'.after log, ?_, hrest.after log⟩
    rw [loop_of_again hstep', he']
    rfl

theorem Same.loop (h : Same R x y) : Same R (Run.loop x) (Run.loop y) := by
  intro s t hst
  cases hx : Run.loop x s with
  | some e =>
    obtain ⟨e', he', hsame⟩ := h.exists_loop hx t hst
    rw [he']
    exact .some hsame
  | none =>
    cases hy : Run.loop y t with
    | none => exact .none
    | some e' =>
      -- The steps match both ways, so the first loop ends if the second one does.
      obtain ⟨e, he, -⟩ := h.flip.exists_loop hy s hst
      rw [hx] at he
      cases he

theorem rel_map {r : α → β → Prop} {γ δ : Type} {q : γ → δ → Prop} {f : α → γ} {g : β → δ}
    {a : Option α} {b : Option β} (h : Option.Rel r a b) (hfg : ∀ x y, r x y → q (f x) (g y)) :
    Option.Rel q (a.map f) (b.map g) := by
  cases h with
  | none => exact .none
  | some hab => exact .some (hfg _ _ hab)

end Run

structure InUse.Alike (u v : InUse σ) : Prop where
  buffer : u.buffer.Alike v.buffer
  state : u.state = v.state

theorem InUse.Alike.clear {u v : InUse σ} (h : u.Alike v) : u.clear.Alike v.clear :=
  ⟨.clear h.buffer.capacity, h.state⟩

/-- The two attempts found and left alike buffers and the same state, and gave the same answer; and
where that announces something of a size, they left the same bytes as far as that. -/
structure Attempt.Alike (x y : Attempt σ) : Prop where
  found : x.found.Alike y.found
  answer : x.answer = y.answer
  left : x.left.Alike y.left
  log : x.log = y.log
  delivered : ∀ a, x.answer = some a → a.code.signal = .success ∨ a.code.signal = .moreEntries →
    a.size ≤ x.left.buffer.capacity →
    ∀ i < a.size, Bytes.get x.left.buffer.bytes i = Bytes.get y.left.buffer.bytes i

/-- The bytes that a call finds have no part in its attempts, nor in what these deliver. -/
def Call.Blind (call : Call σ) : Prop :=
  ∀ u v, u.Alike v → (call.attempt u).Alike (call.attempt v)

/-- The bytes past the length have no part in what is decoded. -/
def Decoder.Blind (decode : Decoder σ α) : Prop :=
  ∀ b c n, b.Alike c → decode b n = decode c n

namespace SizingPolicy

variable {p : SizingPolicy} {alloc : Allocator} {u v : InUse σ}

theorem produce_alike {n : Nat} (settled : Settled) (h : u.Alike v)
    (hserved : Buffer.ServedAlike (u.buffer.setLength n) (v.buffer.setLength n)) :
    (settled.produce n u).Same InUse.Alike (settled.produce n v) := by
  unfold Settled.produce
  match u.buffer.setLength n, v.buffer.setLength n, hserved with
  | .ok b, .ok c, .ok hbc => exact ⟨rfl, ⟨hbc, h.state⟩, rfl⟩
  | .error f, .error _, .error _ => exact ⟨rfl, h, rfl⟩

theorem enlarge_alike (a : Answer) (h : u.Alike v) :
    (p.enlarge alloc a u).Same InUse.Alike (p.enlarge alloc a v) := by
  obtain ⟨hresult, hlog⟩ := p.grow_alike alloc a h.buffer
  unfold enlarge
  simp only [hlog]
  match (p.grow alloc a u.buffer).result, (p.grow alloc a v.buffer).result, hresult with
  | .ok b, .ok c, .ok hbc => exact ⟨rfl, ⟨hbc, h.state⟩, rfl⟩
  | .error f, .error _, .error _ => exact ⟨rfl, h, rfl⟩

theorem conclude_alike {x y : Attempt σ} (h : x.Alike y) :
    (p.conclude alloc x).Same InUse.Alike (p.conclude alloc y) := by
  -- Old bytes could only come to be read where a length is set, after a success or a batch.
  have hserved : ∀ a, x.answer = some a →
      a.code.signal = .success ∨ a.code.signal = .moreEntries →
      Buffer.ServedAlike (x.left.buffer.setLength a.size) (y.left.buffer.setLength a.size) :=
    fun a ha hs => Buffer.Alike.setLength h.left.buffer.capacity (h.delivered a ha hs)
  unfold conclude
  rw [← h.answer, ← h.log]
  cases ha : x.answer with
  | none => exact ⟨rfl, h.left, rfl⟩
  | some a =>
    apply Effect.Same.after
    unfold respond
    cases hs : a.code.signal with
    | insufficientBuffer => exact enlarge_alike a h.left
    | success =>
      have hproduced := produce_alike .complete h.left (hserved a ha (.inl hs))
      exact ⟨congrArg some hproduced.value, hproduced.state, hproduced.log⟩
    | moreEntries =>
      have hproduced := produce_alike (.more a.code) h.left (hserved a ha (.inr hs))
      exact ⟨congrArg some hproduced.value, hproduced.state, hproduced.log⟩
    | noMoreEntries | failure => exact ⟨rfl, h.left, rfl⟩

theorem settle_alike {call : Call σ} (hcall : call.Blind) :
    Run.Same InUse.Alike (p.settle alloc call) (p.settle alloc call) := by
  apply Run.Same.loop
  apply Run.Same.ofAction
  intro u v huv
  exact conclude_alike (hcall u v huv)

end SizingPolicy

namespace Session

structure Alike (s t : Session σ) : Prop where
  pool : s.pool.Alike t.pool
  state : s.state = t.state

theorem Alike.symm {s t : Session σ} (h : s.Alike t) : t.Alike s := ⟨h.pool.symm, h.state.symm⟩

theorem Alike.noted {s t : Session σ} (h : s.Alike t) (seen : List ν) :
    (s.noted seen).Alike (t.noted seen) := ⟨h.pool, congrArg (·, seen) h.state⟩

variable {p : SizingPolicy} {alloc : Allocator} {call : Call σ}

theorem giveBack_alike {rest rest' : Pool} {e e' : Effect (InUse σ) β}
    (hrest : rest.Alike rest') (h : e.Same InUse.Alike e') :
    (giveBack rest e).Same Alike (giveBack rest' e') := by
  obtain ⟨hpool, hlog⟩ := hrest.release h.state.buffer.capacity
  refine ⟨h.value, ⟨hpool, h.state.state⟩, ?_⟩
  simp only [giveBack, h.log, hlog]

theorem withLease_alike {n : Nat} {refused : Failure → β} {use : Run (InUse σ) β}
    (h : Run.Same InUse.Alike use use) :
    Run.Same Alike (withLease alloc n refused use) (withLease alloc n refused use) := by
  intro s t hst
  obtain ⟨hserved, hrest⟩ := hst.pool.acquire alloc n
  unfold withLease
  match s.pool.acquire alloc n, t.pool.acquire alloc n, hserved, hrest with
  | (.ok b, rest), (.ok c, rest'), .ok hbc, hrest =>
    exact Run.rel_map (h ⟨b, s.state⟩ ⟨c, t.state⟩ ⟨hbc, hst.state⟩)
      fun _ _ hsame => giveBack_alike hrest hsame
  | (.error f, rest), (.error _, rest'), .error _, hrest =>
    exact .some ⟨rfl, ⟨hrest, hst.state⟩, rfl⟩

theorem decodeBuffer_alike {decode : Decoder σ α} (h : decode.Blind) :
    Action.Same InUse.Alike (decodeBuffer decode) (decodeBuffer decode) := by
  intro u v huv
  unfold decodeBuffer
  rw [h _ _ _ huv.buffer, huv.buffer.length, huv.state]
  exact ⟨rfl, ⟨huv.buffer, rfl⟩, rfl⟩

theorem decodeSettled_alike {decode : Decoder σ α} (h : decode.Blind)
    (settled : Outcome Settled) :
    Action.Same InUse.Alike (decodeSettled decode settled) (decodeSettled decode settled) := by
  cases settled with
  | returned settled =>
    cases settled with
    | complete => exact decodeBuffer_alike h
    | more | exhausted => exact .pure _
  | failed | panicked => exact .pure _

theorem single_alike {decode : Decoder σ α} (n : Nat) (hcall : call.Blind) (h : decode.Blind) :
    Run.Same Alike (single p alloc n call decode) (single p alloc n call decode) := by
  apply withLease_alike
  apply Run.Same.bind (SizingPolicy.settle_alike hcall)
  intro settled
  exact .ofAction (decodeSettled_alike h settled)

variable {decode : Decoder σ (List α)}

theorem decodeBatch_alike (h : decode.Blind) (items : List α) (settled : Outcome Settled) :
    Action.Same InUse.Alike (decodeBatch decode items settled)
      (decodeBatch decode items settled) := by
  cases settled with
  | returned settled =>
    cases settled with
    | complete =>
      apply (decodeBuffer_alike h).bind
      intro outcome
      cases outcome with
      | returned last => exact (Action.Same.report _).bind fun _ => .pure _
      | failed | panicked => exact .pure _
    | more =>
      apply (decodeBuffer_alike h).bind
      intro outcome
      cases outcome with
      | returned | failed | panicked => exact .pure _
    | exhausted => exact (Action.Same.report _).bind fun _ => .pure _
  | failed | panicked => exact .pure _

structure Reading.Alike (r r' : Reading σ α) : Prop where
  items : r.items = r'.items
  used : r.used.Alike r'.used

theorem readBatch_alike (hcall : call.Blind) (h : decode.Blind) :
    Run.Same Reading.Alike (readBatch p alloc call decode) (readBatch p alloc call decode) := by
  intro r r' hr
  have hbatch : Run.Same InUse.Alike (settleBatch p alloc call decode r.items)
      (settleBatch p alloc call decode r.items) :=
    (SizingPolicy.settle_alike hcall).bind fun settled =>
      .ofAction (decodeBatch_alike h r.items settled)
  unfold readBatch
  rw [← hr.items]
  match settleBatch p alloc call decode r.items r.used,
      settleBatch p alloc call decode r.items r'.used, hbatch _ _ hr.used with
  | none, none, .none => exact .none
  | some ⟨.ended outcome, u, log⟩, some ⟨_, v, _⟩, .some ⟨rfl, huv, rfl⟩ =>
    exact .some ⟨rfl, ⟨rfl, huv⟩, rfl⟩
  | some ⟨.reading items, u, log⟩, some ⟨_, v, _⟩, .some ⟨rfl, huv, rfl⟩ =>
    exact .some ⟨rfl, ⟨rfl, huv⟩, rfl⟩

theorem enumerate_alike (n : Nat) (hcall : call.Blind) (h : decode.Blind) :
    Run.Same Alike (enumerate p alloc n call decode) (enumerate p alloc n call decode) := by
  apply withLease_alike
  intro u v huv
  exact Run.rel_map ((readBatch_alike hcall h).loop ⟨[], u⟩ ⟨[], v⟩ ⟨rfl, huv⟩)
    fun _ _ hsame => ⟨hsame.value, hsame.state.used, hsame.log⟩

end Session

end NativeResource

import NativeResource.Proofs.Sizing.Course
import NativeResource.Sizing.Session
/-!
The course of an enumeration: batch after batch, each of them settled by a course of its own, on
the one buffer. Whatever becomes of a batch, the bytes of the buffer are those that its last
attempt left.
-/
namespace NativeResource

variable {σ α : Type} {p : SizingPolicy} {alloc : Allocator} {call : Call σ}

namespace Session

/-- From the items read so far: the attempts before the last one of all, that one, and the
effect. -/
inductive Enumeration (p : SizingPolicy) (alloc : Allocator) (call : Call σ)
    (decode : Decoder σ (List α)) : List α → InUse σ → List (Attempt σ) → Attempt σ →
      Effect (InUse σ) (Outcome (List α)) → Prop where
  | ended {items : List α} {u v : InUse σ} {earlier : List (Attempt σ)} {last : Attempt σ}
      {outcome : Outcome (List α)} {log : List Event} :
      Course p alloc call u earlier last →
      settleBatch p alloc call decode items u = some ⟨.ended outcome, v, log⟩ →
      Enumeration p alloc call decode items u earlier last ⟨outcome, v, log⟩
  | further {items more : List α} {u v : InUse σ} {earlier attempts : List (Attempt σ)}
      {last final : Attempt σ} {log : List Event} {e : Effect (InUse σ) (Outcome (List α))} :
      Course p alloc call u earlier last →
      settleBatch p alloc call decode items u = some ⟨.reading more, v, log⟩ →
      Enumeration p alloc call decode more v attempts final e →
      Enumeration p alloc call decode items u (earlier ++ last :: attempts) final (e.after log)

variable {decode : Decoder σ (List α)} {items : List α} {u : InUse σ}

theorem course_of_settleBatch {batch : Effect (InUse σ) (Progress α)}
    (h : settleBatch p alloc call decode items u = some batch) :
    ∃ earlier last, Course p alloc call u earlier last := by
  obtain ⟨settled, -, hsettled, -⟩ := Run.bind_eq_some.mp h
  exact Course.exists_of_settle hsettled

theorem readBatch_eq_some {r v : Reading σ α} {value : Option (Outcome (List α))}
    {log : List Event} (h : readBatch p alloc call decode r = some ⟨value, v, log⟩) :
    ∃ batch, settleBatch p alloc call decode r.items r.used = some batch ∧
      batch.state = v.used ∧ batch.log = log ∧
      match batch.value with
      | .ended outcome => value = some outcome
      | .reading items => value = none ∧ v.items = items := by
  obtain ⟨batch, hbatch, h⟩ := Option.bind_eq_some_iff.mp h
  refine ⟨batch, hbatch, ?_⟩
  cases hprogress : batch.value <;> simp only [hprogress] at h <;> cases h <;> simp

theorem Enumeration.exists_of_loop {r : Reading σ α}
    {e : Effect (Reading σ α) (Outcome (List α))}
    (h : Run.loop (readBatch p alloc call decode) r = some e) :
    ∃ attempts final, Enumeration p alloc call decode r.items r.used attempts final
      ⟨e.value, e.state.used, e.log⟩ := by
  refine Run.loop_induction (motive := fun r e => ∃ attempts final,
    Enumeration p alloc call decode r.items r.used attempts final
      ⟨e.value, e.state.used, e.log⟩) ?_ ?_ h
  · intro r outcome v log hstep
    obtain ⟨batch, hbatch, hstate, hlog, hvalue⟩ := readBatch_eq_some hstep
    obtain ⟨earlier, last, hcourse⟩ := course_of_settleBatch hbatch
    obtain ⟨progress, u, log'⟩ := batch
    cases progress with
    | ended outcome' =>
      cases hvalue
      cases hstate
      cases hlog
      exact ⟨earlier, last, .ended hcourse hbatch⟩
    | reading items => cases hvalue.1
  · rintro r v log e hstep ⟨attempts, final, hrest⟩
    obtain ⟨batch, hbatch, hstate, hlog, hvalue⟩ := readBatch_eq_some hstep
    obtain ⟨earlier, last, hcourse⟩ := course_of_settleBatch hbatch
    obtain ⟨progress, u, log'⟩ := batch
    cases progress with
    | ended outcome => cases hvalue
    | reading items =>
      obtain ⟨-, hitems⟩ := hvalue
      cases hstate
      cases hlog
      rw [hitems] at hrest
      exact ⟨earlier ++ last :: attempts, final, .further hcourse hbatch hrest⟩

theorem Enumeration.exists_of_settleBatches {e : Effect (InUse σ) (Outcome (List α))}
    (h : settleBatches p alloc call decode u = some e) :
    ∃ attempts final, Enumeration p alloc call decode [] u attempts final e := by
  obtain ⟨ended, hloop, rfl⟩ := Option.map_eq_some_iff.mp h
  exact exists_of_loop hloop

end Session

theorem SizingPolicy.bytes_conclude {x : Attempt σ} (h : ∀ b, ¬ p.Enlarged alloc x b) :
    (p.conclude alloc x).state.buffer.bytes = x.left.buffer.bytes := by
  unfold conclude
  cases ha : x.answer with
  | none => rfl
  | some a =>
    simp only [Effect.state_after, respond]
    cases hs : a.code.signal with
    | insufficientBuffer =>
      cases hg : (p.grow alloc a x.left.buffer).result with
      | ok b => exact absurd ⟨a, ha, hs, hg⟩ (h b)
      | error f => simp only [enlarge, hg]
    | success | moreEntries =>
      rcases Nat.lt_or_ge x.left.buffer.capacity a.size with hlt | hle
      · simp only [Settled.produce, Buffer.setLength_of_lt hlt]
      · obtain ⟨b, hset, -, hbytes⟩ := Buffer.setLength_of_le hle
        simp only [Settled.produce, hset]
        exact hbytes
    | noMoreEntries | failure => rfl

theorem Course.bytes_settle {u : InUse σ} {earlier : List (Attempt σ)} {last : Attempt σ}
    {e : Effect (InUse σ) (Outcome Settled)} (h : Course p alloc call u earlier last)
    (he : p.settle alloc call u = some e) : e.state.buffer.bytes = last.left.buffer.bytes := by
  obtain ⟨e', he', hyields⟩ := h.settle_eq
  rw [he] at he'
  cases he'
  rw [hyields.state]
  exact SizingPolicy.bytes_conclude h.last_not_enlarged

namespace Session

theorem buffer_decodeSettled (decode : Decoder σ α) (settled : Outcome Settled) (u : InUse σ) :
    (decodeSettled decode settled u).state.buffer = u.buffer := by
  cases settled with
  | returned s => cases s <;> rfl
  | failed | panicked => rfl

theorem buffer_decodeBatch (decode : Decoder σ (List α)) (items : List α)
    (settled : Outcome Settled) (u : InUse σ) :
    (decodeBatch decode items settled u).state.buffer = u.buffer := by
  cases settled with
  | returned s =>
    cases s with
    | complete | more =>
      simp only [decodeBatch, Action.bind_apply]
      cases (decodeBuffer decode u).value <;> rfl
    | exhausted => rfl
  | failed | panicked => rfl

variable {u : InUse σ}

theorem bytes_settleOnce {decode : Decoder σ α} {earlier : List (Attempt σ)} {last : Attempt σ}
    {e : Effect (InUse σ) (Outcome α)} (hcourse : Course p alloc call u earlier last)
    (h : settleOnce p alloc call decode u = some e) :
    e.state.buffer.bytes = last.left.buffer.bytes := by
  obtain ⟨settled, decoded, hsettled, hdecoded, rfl⟩ := Run.bind_eq_some.mp h
  cases hdecoded
  rw [Effect.state_after, buffer_decodeSettled]
  exact hcourse.bytes_settle hsettled

theorem bytes_settleBatch {decode : Decoder σ (List α)} {items : List α}
    {earlier : List (Attempt σ)} {last : Attempt σ} {batch : Effect (InUse σ) (Progress α)}
    (hcourse : Course p alloc call u earlier last)
    (h : settleBatch p alloc call decode items u = some batch) :
    batch.state.buffer.bytes = last.left.buffer.bytes := by
  obtain ⟨settled, decoded, hsettled, hdecoded, rfl⟩ := Run.bind_eq_some.mp h
  cases hdecoded
  rw [Effect.state_after, buffer_decodeBatch]
  exact hcourse.bytes_settle hsettled

theorem Enumeration.bytes_eq {decode : Decoder σ (List α)} {items : List α}
    {attempts : List (Attempt σ)} {final : Attempt σ} {e : Effect (InUse σ) (Outcome (List α))}
    (h : Enumeration p alloc call decode items u attempts final e) :
    e.state.buffer.bytes = final.left.buffer.bytes := by
  induction h with
  | ended hcourse hbatch => exact bytes_settleBatch hcourse hbatch
  | further _ _ _ ih => exact ih

end Session

end NativeResource

import NativeResource.Proofs.Buffer.History
import NativeResource.Proofs.Sizing.Enumeration
import NativeResource.Proofs.Sizing.Observation
/-!
The rounds of an enumeration. A round is one attempt and the decoding that followed it, if one did.
A round that says "too small" leads on to a grown buffer, one that says "more" to the items of its
batch; any other round is the last one. The run of an enumeration goes through its rounds, and it
ends exactly when they come to a last one.
-/
namespace NativeResource

variable {σ α ν : Type}

/-- One attempt of an enumeration, with the buffer and the size that were then given to the decoder
if it was run, the items that it returned, and everything reported meanwhile. -/
structure Round (σ α : Type) where
  attempt : Attempt σ
  decoded : Option (Buffer × Nat)
  items : List α
  log : List Event

namespace Session

section Answers

variable (p : SizingPolicy) (alloc : Allocator) (decode : Decoder σ (List α)) (items : List α)
  (x : Attempt σ)

/-- A round after which the enumeration goes on: the buffer was grown, or a batch was read. -/
inductive Continues : Round σ α → Reading σ α → Prop where
  | grown {a : Answer} {b : Buffer} : x.answer = some a →
      a.code.signal = .insufficientBuffer → (p.grow alloc a x.left.buffer).result = .ok b →
      Continues ⟨x, none, [], x.log ++ (p.grow alloc a x.left.buffer).log⟩
        ⟨items, ⟨b, x.left.state⟩⟩
  | more {a : Answer} {b : Buffer} {batch : List α} {t : σ} {log : List Event} :
      x.answer = some a → a.code.signal = .moreEntries →
      x.left.buffer.setLength a.size = .ok b →
      decode b a.size x.left.state = ⟨.returned batch, t, log⟩ →
      Continues ⟨x, some (b, a.size), batch, x.log ++ log⟩ ⟨items ++ batch, ⟨b, t⟩⟩

/-- A round that ends the enumeration, with what it returns and how it leaves buffer and state. -/
inductive Concludes : Round σ α → Outcome (List α) → InUse σ → Prop where
  | complete {a : Answer} {b : Buffer} {batch : List α} {t : σ} {log : List Event} :
      x.answer = some a → a.code.signal = .success →
      x.left.buffer.setLength a.size = .ok b →
      decode b a.size x.left.state = ⟨.returned batch, t, log⟩ →
      Concludes ⟨x, some (b, a.size), batch,
          x.log ++ (log ++ [.enumerationComplete (items ++ batch).length])⟩
        (.returned (items ++ batch)) ⟨b, t⟩
  | exhausted {a : Answer} : x.answer = some a → a.code.signal = .noMoreEntries →
      Concludes ⟨x, none, [], x.log ++ [.enumerationExhausted items.length]⟩
        (.returned items) x.left
  | undecoded {a : Answer} {b : Buffer} {f : Failure} {t : σ} {log : List Event} :
      x.answer = some a → a.code.signal = .success ∨ a.code.signal = .moreEntries →
      x.left.buffer.setLength a.size = .ok b →
      decode b a.size x.left.state = ⟨.failed f, t, log⟩ →
      Concludes ⟨x, some (b, a.size), [], x.log ++ log⟩ (.failed f) ⟨b, t⟩
  | abandoned {a : Answer} {b : Buffer} {t : σ} {log : List Event} :
      x.answer = some a → a.code.signal = .success ∨ a.code.signal = .moreEntries →
      x.left.buffer.setLength a.size = .ok b →
      decode b a.size x.left.state = ⟨.panicked, t, log⟩ →
      Concludes ⟨x, some (b, a.size), [], x.log ++ log⟩ .panicked ⟨b, t⟩
  | tooLong {a : Answer} {f : Failure} :
      x.answer = some a → a.code.signal = .success ∨ a.code.signal = .moreEntries →
      x.left.buffer.setLength a.size = .error f →
      Concludes ⟨x, none, [], x.log⟩ (.failed f) x.left
  | reported {a : Answer} : x.answer = some a → a.code.signal = .failure →
      Concludes ⟨x, none, [], x.log ++ [.callFailed a.code]⟩ (.failed (.reported a.code)) x.left
  | ungrown {a : Answer} {f : Failure} : x.answer = some a →
      a.code.signal = .insufficientBuffer → (p.grow alloc a x.left.buffer).result = .error f →
      Concludes ⟨x, none, [], x.log ++ (p.grow alloc a x.left.buffer).log⟩ (.failed f) x.left
  | unwound : x.answer = none → Concludes ⟨x, none, [], x.log⟩ .panicked x.left

end Answers

inductive Rounds (p : SizingPolicy) (alloc : Allocator) (call : Call σ)
    (decode : Decoder σ (List α)) : Reading σ α → List (Round σ α) → Reading σ α → Prop where
  | refl (r : Reading σ α) : Rounds p alloc call decode r [] r
  | head {r m r' : Reading σ α} {x : Round σ α} {rounds : List (Round σ α)} :
      Continues p alloc decode r.items (call.attempt r.used) x m →
      Rounds p alloc call decode m rounds r' → Rounds p alloc call decode r (x :: rounds) r'

variable {p : SizingPolicy} {alloc : Allocator} {call : Call σ} {decode : Decoder σ (List α)}
  {items : List α} {x : Attempt σ} {r m r' : Reading σ α} {y last : Round σ α}
  {rounds : List (Round σ α)} {outcome : Outcome (List α)} {u v w : InUse σ}

theorem continues_or_concludes (p : SizingPolicy) (alloc : Allocator)
    (decode : Decoder σ (List α)) (items : List α) (x : Attempt σ) :
    (∃ y m, Continues p alloc decode items x y m) ∨
      ∃ y outcome v, Concludes p alloc decode items x y outcome v := by
  cases ha : x.answer with
  | none => exact .inr ⟨_, _, _, .unwound ha⟩
  | some a =>
    cases hs : a.code.signal with
    | insufficientBuffer =>
      cases hg : (p.grow alloc a x.left.buffer).result with
      | ok b => exact .inl ⟨_, _, .grown ha hs hg⟩
      | error f => exact .inr ⟨_, _, _, .ungrown ha hs hg⟩
    | success =>
      cases hb : x.left.buffer.setLength a.size with
      | error f => exact .inr ⟨_, _, _, .tooLong ha (.inl hs) hb⟩
      | ok b =>
        cases hd : decode b a.size x.left.state with
        | mk value t log =>
          cases value with
          | returned batch => exact .inr ⟨_, _, _, .complete ha hs hb hd⟩
          | failed f => exact .inr ⟨_, _, _, .undecoded ha (.inl hs) hb hd⟩
          | panicked => exact .inr ⟨_, _, _, .abandoned ha (.inl hs) hb hd⟩
    | moreEntries =>
      cases hb : x.left.buffer.setLength a.size with
      | error f => exact .inr ⟨_, _, _, .tooLong ha (.inr hs) hb⟩
      | ok b =>
        cases hd : decode b a.size x.left.state with
        | mk value t log =>
          cases value with
          | returned batch => exact .inl ⟨_, _, .more ha hs hb hd⟩
          | failed f => exact .inr ⟨_, _, _, .undecoded ha (.inr hs) hb hd⟩
          | panicked => exact .inr ⟨_, _, _, .abandoned ha (.inr hs) hb hd⟩
    | noMoreEntries => exact .inr ⟨_, _, _, .exhausted ha hs⟩
    | failure => exact .inr ⟨_, _, _, .reported ha hs⟩

section Loop

variable {settled : Outcome Settled} {log log' : List Event}

theorem readBatch_of_repeat
    (h : p.conclude alloc (call.attempt r.used) = ⟨none, u, log⟩) :
    readBatch p alloc call decode r =
      (readBatch p alloc call decode ⟨r.items, u⟩).map (Effect.after log) := by
  have hbatch : settleBatch p alloc call decode r.items r.used =
      (settleBatch p alloc call decode r.items u).map (Effect.after log) := by
    change (p.settle alloc call r.used).bind _ = ((p.settle alloc call u).bind _).map _
    rw [SizingPolicy.settle_of_repeat h]
    cases p.settle alloc call u with
    | none => rfl
    | some e => simp [Run.ofAction, Effect.after]
  unfold readBatch
  rw [hbatch]
  cases settleBatch p alloc call decode r.items u with
  | none => rfl
  | some batch =>
    obtain ⟨progress, w, log'⟩ := batch
    cases progress <;> rfl

/-- An attempt that is not repeated settles the batch, and what the batch comes to says whether the
run goes on. -/
theorem readBatch_of_settled (progress : Progress α)
    (h : p.conclude alloc (call.attempt r.used) = ⟨some settled, v, log⟩)
    (hd : decodeBatch decode r.items settled v = ⟨progress, w, log'⟩) :
    readBatch p alloc call decode r =
      match progress with
      | .ended outcome => some ⟨some outcome, ⟨r.items, w⟩, log ++ log'⟩
      | .reading items => some ⟨none, ⟨items, w⟩, log ++ log'⟩ := by
  have hs : settleBatch p alloc call decode r.items r.used =
      some ⟨progress, w, log ++ log'⟩ :=
    Run.bind_eq_some.mpr ⟨_, _, SizingPolicy.settle_of_last h, congrArg some hd, rfl⟩
  simp only [readBatch, hs]
  cases progress <;> rfl

end Loop

theorem decodeBuffer_of_setLength {a : Answer} {b : Buffer} {t : σ} {log : List Event}
    {value : Outcome (List α)} (hb : u.buffer.setLength a.size = .ok b)
    (hd : decode b a.size u.state = ⟨value, t, log⟩) :
    decodeBuffer decode ⟨b, u.state⟩ = ⟨value, ⟨b, t⟩, log⟩ := by
  have hset := Buffer.setLength_setsLength a.size u.buffer
  rw [hb] at hset
  simp only [decodeBuffer, hset.2.1, hd]

theorem readBatch_of_more {a : Answer} {b : Buffer} {batch : List α} {t : σ} {log : List Event}
    (ha : (call.attempt r.used).answer = some a) (hs : a.code.signal = .moreEntries)
    (hb : (call.attempt r.used).left.buffer.setLength a.size = .ok b)
    (hd : decode b a.size (call.attempt r.used).left.state = ⟨.returned batch, t, log⟩) :
    readBatch p alloc call decode r =
      some ⟨none, ⟨r.items ++ batch, ⟨b, t⟩⟩, (call.attempt r.used).log ++ log⟩ := by
  refine readBatch_of_settled (.reading _) (SizingPolicy.conclude_of_moreEntries ha hs hb) ?_
  simp [decodeBatch, Action.bind_apply, decodeBuffer_of_setLength hb hd, Action.pure_apply]

theorem Continues.loop_eq (h : Continues p alloc decode r.items (call.attempt r.used) y m) :
    Run.loop (readBatch p alloc call decode) r =
      (Run.loop (readBatch p alloc call decode) m).map (Effect.after y.log) := by
  cases h with
  | grown ha hs hg =>
    exact Run.loop_of_after (readBatch_of_repeat (SizingPolicy.conclude_of_grow ha hs hg))
  | more ha hs hb hd => exact Run.loop_of_again (readBatch_of_more ha hs hb hd)

theorem Concludes.loop_eq
    (h : Concludes p alloc decode r.items (call.attempt r.used) last outcome v) :
    Run.loop (readBatch p alloc call decode) r = some ⟨outcome, ⟨r.items, v⟩, last.log⟩ := by
  apply Run.loop_of_done
  cases h with
  | @complete a b batch t log ha hs hb hd =>
    refine readBatch_of_settled (.ended _) (SizingPolicy.conclude_of_success ha hs hb) ?_
    simp [decodeBatch, Action.bind_apply, decodeBuffer_of_setLength hb hd, Action.map_apply,
      Action.report]
  | exhausted ha hs =>
    refine readBatch_of_settled (.ended _) (SizingPolicy.conclude_of_noMoreEntries ha hs) ?_
    simp [decodeBatch, Action.map_apply, Action.report]
  | undecoded ha hs hb hd | abandoned ha hs hb hd =>
    have hdecode := decodeBuffer_of_setLength hb hd
    rcases hs with hs | hs
    · refine readBatch_of_settled (.ended _) (SizingPolicy.conclude_of_success ha hs hb) ?_
      simp [decodeBatch, Action.bind_apply, hdecode, Action.pure_apply]
    · refine readBatch_of_settled (.ended _) (SizingPolicy.conclude_of_moreEntries ha hs hb) ?_
      simp [decodeBatch, Action.bind_apply, hdecode, Action.pure_apply]
  | tooLong ha hs hb =>
    refine (readBatch_of_settled (.ended _)
      (SizingPolicy.conclude_of_tooLong ha hs hb) rfl).trans ?_
    rw [List.append_nil]
  | reported ha hs =>
    refine (readBatch_of_settled (.ended _) (SizingPolicy.conclude_of_failure ha hs) rfl).trans ?_
    rw [List.append_nil]
  | ungrown ha hs hg =>
    refine (readBatch_of_settled (.ended _)
      (SizingPolicy.conclude_of_grow_error ha hs hg) rfl).trans ?_
    rw [List.append_nil]
  | unwound ha =>
    refine (readBatch_of_settled (.ended _) (SizingPolicy.conclude_of_none ha) rfl).trans ?_
    rw [List.append_nil]

theorem Rounds.append {more : List (Round σ α)} (h : Rounds p alloc call decode r rounds m)
    (hmore : Rounds p alloc call decode m more r') :
    Rounds p alloc call decode r (rounds ++ more) r' := by
  induction h with
  | refl r => exact hmore
  | head hfirst _ ih => exact .head hfirst (ih hmore)

theorem Rounds.tail (h : Rounds p alloc call decode r rounds m)
    (hy : Continues p alloc decode m.items (call.attempt m.used) y r') :
    Rounds p alloc call decode r (rounds ++ [y]) r' :=
  h.append (.head hy (.refl r'))

/-- The run goes through every round, whether it ends or not. -/
theorem Rounds.loop_eq (h : Rounds p alloc call decode r rounds m) :
    Run.loop (readBatch p alloc call decode) r =
      (Run.loop (readBatch p alloc call decode) m).map
        (Effect.after (rounds.flatMap Round.log)) := by
  induction h with
  | refl r => rw [List.flatMap_nil, Effect.after_nil, Option.map_id, id]
  | head hy _ ih =>
    rw [hy.loop_eq, ih, Option.map_map, Effect.after_comp, List.flatMap_cons]

theorem Rounds.of_course {earlier : List (Attempt σ)} (decode : Decoder σ (List α))
    (items : List α) (h : Course p alloc call u earlier x) :
    ∃ rounds v log, Rounds p alloc call decode ⟨items, u⟩ rounds ⟨items, v⟩ ∧
      x = call.attempt v ∧ readBatch p alloc call decode ⟨items, u⟩ =
        (readBatch p alloc call decode ⟨items, v⟩).map (Effect.after log) := by
  induction h with
  | last u _ =>
    refine ⟨[], u, [], .refl _, rfl, ?_⟩
    rw [Effect.after_nil, Option.map_id, id]
  | again u hb _ ih =>
    obtain ⟨rounds, v, log, hrounds, hlast, hread⟩ := ih
    obtain ⟨first, hc⟩ := SizingPolicy.conclude_of_enlarged hb
    obtain ⟨a, ha, hs, hg⟩ := hb
    refine ⟨_, v, first ++ log, .head (.grown ha hs hg) hrounds, hlast, ?_⟩
    rw [readBatch_of_repeat hc, hread, Option.map_map, Effect.after_comp]

def Ends (p : SizingPolicy) (alloc : Allocator) (call : Call σ) (decode : Decoder σ (List α))
    (r : Reading σ α) : Prop :=
  ∃ rounds m last outcome v, Rounds p alloc call decode r rounds m ∧
    Concludes p alloc decode m.items (call.attempt m.used) last outcome v

theorem Rounds.ends (h : Rounds p alloc call decode r rounds m)
    (hends : Ends p alloc call decode m) : Ends p alloc call decode r := by
  obtain ⟨more, r', last, outcome, v, hmore, hlast⟩ := hends
  exact ⟨rounds ++ more, r', last, outcome, v, h.append hmore, hlast⟩

theorem ends_or_reads {value : Option (Outcome (List α))} {log : List Event}
    (h : readBatch p alloc call decode r = some ⟨value, m, log⟩) :
    Ends p alloc call decode r ∨
      value = none ∧ ∃ rounds, Rounds p alloc call decode r rounds m := by
  obtain ⟨batch, hbatch, -⟩ := readBatch_eq_some h
  obtain ⟨earlier, x, hcourse⟩ := course_of_settleBatch hbatch
  obtain ⟨rounds, v, log', hrounds, rfl, hread⟩ := Rounds.of_course decode r.items hcourse
  rcases continues_or_concludes p alloc decode r.items (call.attempt v) with
    ⟨y, m', hy⟩ | ⟨last, outcome, w, hlast⟩
  · cases hy with
    | grown ha hs hg => exact absurd ⟨_, ha, hs, hg⟩ (hcourse.last_not_enlarged _)
    | more ha hs hb hd =>
      have hreached := hrounds.tail (.more ha hs hb hd)
      rw [h, readBatch_of_more ha hs hb hd] at hread
      cases hread
      exact .inr ⟨rfl, _, hreached⟩
  · exact .inl (hrounds.ends ⟨[], _, last, outcome, w, .refl _, hlast⟩)

theorem ends_of_loop {e : Effect (Reading σ α) (Outcome (List α))}
    (h : Run.loop (readBatch p alloc call decode) r = some e) : Ends p alloc call decode r := by
  refine Run.loop_induction (motive := fun r _ => Ends p alloc call decode r) ?_ ?_ h
  · intro r outcome m log hstep
    rcases ends_or_reads hstep with hends | ⟨hnone, -⟩
    · exact hends
    · cases hnone
  · intro r m log e hstep hends
    rcases ends_or_reads hstep with hdone | ⟨-, rounds, hrounds⟩
    · exact hdone
    · exact hrounds.ends hends

theorem Continues.unique {y' : Round σ α} (h : Continues p alloc decode items x y m)
    (h' : Continues p alloc decode items x y' r') : m = r' := by
  cases h with
  | grown ha hs hg =>
    cases h' with
    | grown ha' _ hg' => simp_all
    | more ha' hs' _ _ => simp_all
  | more ha hs hb hd =>
    cases h' with
    | grown ha' hs' _ => simp_all
    | more ha' _ hb' hd' => simp_all

theorem Concludes.not_continues (h : Concludes p alloc decode items x last outcome v) :
    ¬ Continues p alloc decode items x y m := by
  intro h'
  cases h' <;> cases h <;> simp_all

theorem Rounds.length_le {more : List (Round σ α)} (h : Rounds p alloc call decode r rounds m)
    (hlast : Concludes p alloc decode m.items (call.attempt m.used) last outcome v)
    (hmore : Rounds p alloc call decode r more r') : more.length ≤ rounds.length := by
  induction h generalizing more with
  | refl r =>
    cases hmore with
    | refl => exact Nat.le_refl _
    | head hy _ => exact absurd hy hlast.not_continues
  | head hy _ ih =>
    cases hmore with
    | refl => exact Nat.zero_le _
    | head hy' hmore =>
      rw [← hy.unique hy'] at hmore
      exact Nat.succ_le_succ (ih hlast hmore)

/-- An enumeration whose rounds come to no last one has as many of them as one likes. -/
theorem exists_rounds_of_not_ends (h : ¬ Ends p alloc call decode r) (k : Nat) :
    ∃ rounds m, Rounds p alloc call decode r rounds m ∧ rounds.length = k := by
  induction k with
  | zero => exact ⟨[], r, .refl r, rfl⟩
  | succ k ih =>
    obtain ⟨rounds, m, hrounds, hlength⟩ := ih
    rcases continues_or_concludes p alloc decode m.items (call.attempt m.used) with
      ⟨y, r', hy⟩ | ⟨last, outcome, v, hlast⟩
    · refine ⟨rounds ++ [y], r', hrounds.tail hy, ?_⟩
      rw [List.length_append, hlength, List.length_singleton]
    · exact absurd ⟨rounds, m, last, outcome, v, hrounds, hlast⟩ h

theorem loop_eq_none_iff : Run.loop (readBatch p alloc call decode) r = none ↔
    ∀ k, ∃ rounds m, Rounds p alloc call decode r rounds m ∧ rounds.length = k := by
  constructor
  · intro hnone k
    apply exists_rounds_of_not_ends
    rintro ⟨rounds, m, last, outcome, v, hrounds, hlast⟩
    rw [hrounds.loop_eq, hlast.loop_eq] at hnone
    cases hnone
  · intro hall
    cases hloop : Run.loop (readBatch p alloc call decode) r with
    | none => rfl
    | some e =>
      obtain ⟨rounds, m, last, outcome, v, hrounds, hlast⟩ := ends_of_loop hloop
      obtain ⟨more, r', hmore, hlength⟩ := hall (rounds.length + 1)
      have := hrounds.length_le hlast hmore
      omega

end Session

end NativeResource

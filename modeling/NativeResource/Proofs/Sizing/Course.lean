import NativeResource.Sizing.Settle
/-!
The course of a sizing: its attempts in order. A course goes on as long as the answer is "too
small" and the buffer could be grown; settling ends exactly when the call has a course, and what
comes of it follows from the last attempt.
-/
namespace NativeResource

variable {σ : Type} {p : SizingPolicy} {alloc : Allocator} {call : Call σ}

def SizingPolicy.Enlarged (p : SizingPolicy) (alloc : Allocator) (x : Attempt σ) (b : Buffer) :
    Prop :=
  ∃ a, x.answer = some a ∧ a.code.signal = .insufficientBuffer ∧
    (p.grow alloc a x.left.buffer).result = .ok b

/-- Each attempt but the last grew the buffer, which the next one found emptied, with the call's
state as the attempt before left it. -/
inductive Course (p : SizingPolicy) (alloc : Allocator) (call : Call σ) :
    InUse σ → List (Attempt σ) → Attempt σ → Prop where
  | last (u : InUse σ) : (∀ b, ¬ p.Enlarged alloc (call.attempt u) b) →
      Course p alloc call u [] (call.attempt u)
  | again (u : InUse σ) {b : Buffer} {earlier : List (Attempt σ)} {last : Attempt σ} :
      p.Enlarged alloc (call.attempt u) b →
      Course p alloc call ⟨b, (call.attempt u).left.state⟩ earlier last →
      Course p alloc call u (call.attempt u :: earlier) last

namespace SizingPolicy

section Answers

variable {x : Attempt σ} {a : Answer} {b : Buffer} {f : Failure}

theorem conclude_of_grow (ha : x.answer = some a) (hs : a.code.signal = .insufficientBuffer)
    (hg : (p.grow alloc a x.left.buffer).result = .ok b) :
    p.conclude alloc x =
      ⟨none, ⟨b, x.left.state⟩, x.log ++ (p.grow alloc a x.left.buffer).log⟩ := by
  simp only [conclude, ha, respond, hs, enlarge, hg]
  rfl

theorem conclude_of_grow_error (ha : x.answer = some a)
    (hs : a.code.signal = .insufficientBuffer)
    (hg : (p.grow alloc a x.left.buffer).result = .error f) :
    p.conclude alloc x =
      ⟨some (.failed f), x.left, x.log ++ (p.grow alloc a x.left.buffer).log⟩ := by
  simp only [conclude, ha, respond, hs, enlarge, hg]
  rfl

theorem conclude_of_success (ha : x.answer = some a) (hs : a.code.signal = .success)
    (hb : x.left.buffer.setLength a.size = .ok b) :
    p.conclude alloc x = ⟨some (.returned .complete), ⟨b, x.left.state⟩, x.log⟩ := by
  simp [conclude, ha, respond, hs, Settled.produce, hb, Effect.after]

theorem conclude_of_moreEntries (ha : x.answer = some a) (hs : a.code.signal = .moreEntries)
    (hb : x.left.buffer.setLength a.size = .ok b) :
    p.conclude alloc x = ⟨some (.returned (.more a.code)), ⟨b, x.left.state⟩, x.log⟩ := by
  simp [conclude, ha, respond, hs, Settled.produce, hb, Effect.after]

theorem conclude_of_tooLong (ha : x.answer = some a)
    (hs : a.code.signal = .success ∨ a.code.signal = .moreEntries)
    (hb : x.left.buffer.setLength a.size = .error f) :
    p.conclude alloc x = ⟨some (.failed f), x.left, x.log⟩ := by
  rcases hs with hs | hs <;>
    simp [conclude, ha, respond, hs, Settled.produce, hb, Effect.after]

theorem conclude_of_noMoreEntries (ha : x.answer = some a)
    (hs : a.code.signal = .noMoreEntries) :
    p.conclude alloc x = ⟨some (.returned (.exhausted a.code)), x.left, x.log⟩ := by
  simp [conclude, ha, respond, hs, Effect.after]

theorem conclude_of_failure (ha : x.answer = some a) (hs : a.code.signal = .failure) :
    p.conclude alloc x =
      ⟨some (.failed (.reported a.code)), x.left, x.log ++ [.callFailed a.code]⟩ := by
  simp [conclude, ha, respond, hs, Effect.after]

theorem conclude_of_none (ha : x.answer = none) :
    p.conclude alloc x = ⟨some .panicked, x.left, x.log⟩ := by
  simp only [conclude, ha]

end Answers

theorem conclude_of_enlarged {x : Attempt σ} {b : Buffer} (h : p.Enlarged alloc x b) :
    ∃ log, p.conclude alloc x = ⟨none, ⟨b, x.left.state⟩, log⟩ := by
  obtain ⟨a, ha, hs, hg⟩ := h
  exact ⟨_, conclude_of_grow ha hs hg⟩

theorem enlarged_of_conclude {x : Attempt σ} (h : (p.conclude alloc x).value = none) :
    ∃ b, p.Enlarged alloc x b := by
  unfold conclude at h
  cases ha : x.answer with
  | none => simp [ha] at h
  | some a =>
    simp only [ha, Effect.value_after, respond] at h
    cases hs : a.code.signal with
    | insufficientBuffer =>
      simp only [hs, enlarge] at h
      cases hg : (p.grow alloc a x.left.buffer).result with
      | ok b => exact ⟨b, a, ha, hs, hg⟩
      | error f => simp [hg] at h
    | success | moreEntries | noMoreEntries | failure => simp [hs] at h

theorem settle_of_last {u v : InUse σ} {outcome : Outcome Settled} {log : List Event}
    (h : p.conclude alloc (call.attempt u) = ⟨some outcome, v, log⟩) :
    p.settle alloc call u = some ⟨outcome, v, log⟩ :=
  Run.loop_of_done (congrArg some h)

theorem settle_of_repeat {u v : InUse σ} {log : List Event}
    (h : p.conclude alloc (call.attempt u) = ⟨none, v, log⟩) :
    p.settle alloc call u = (p.settle alloc call v).map (Effect.after log) :=
  Run.loop_of_again (congrArg some h)

theorem exists_conclude_of_not_enlarged {x : Attempt σ} (h : ∀ b, ¬ p.Enlarged alloc x b) :
    ∃ outcome v log, p.conclude alloc x = ⟨some outcome, v, log⟩ := by
  cases hv : (p.conclude alloc x).value with
  | none =>
    obtain ⟨b, hb⟩ := enlarged_of_conclude hv
    exact absurd hb (h b)
  | some outcome =>
    exact ⟨outcome, (p.conclude alloc x).state, (p.conclude alloc x).log, by rw [← hv]⟩

end SizingPolicy

/-- What settling makes of a course: value and state follow from the last attempt, and the log is
that of all attempts. -/
structure Course.Yields (p : SizingPolicy) (alloc : Allocator) (earlier : List (Attempt σ))
    (last : Attempt σ) (e : Effect (InUse σ) (Outcome Settled)) : Prop where
  value : (p.conclude alloc last).value = some e.value
  state : e.state = (p.conclude alloc last).state
  log : e.log = (earlier.flatMap fun x => (p.conclude alloc x).log) ++ (p.conclude alloc last).log

namespace Course

theorem last_not_enlarged {u : InUse σ} {earlier : List (Attempt σ)} {last : Attempt σ}
    (h : Course p alloc call u earlier last) (b : Buffer) : ¬ p.Enlarged alloc last b := by
  induction h with
  | last u hn => exact hn b
  | again _ _ _ ih => exact ih

theorem enlarged_of_mem {u : InUse σ} {earlier : List (Attempt σ)} {last : Attempt σ}
    (h : Course p alloc call u earlier last) : ∀ x ∈ earlier, ∃ b, p.Enlarged alloc x b := by
  induction h with
  | last => exact nofun
  | again u hb _ ih => exact List.forall_mem_cons.mpr ⟨⟨_, hb⟩, ih⟩

theorem exists_attempt {u : InUse σ} {earlier : List (Attempt σ)} {last : Attempt σ}
    (h : Course p alloc call u earlier last) :
    ∀ x ∈ earlier ++ [last], ∃ v, x = call.attempt v := by
  induction h with
  | last u _ => exact List.forall_mem_singleton.mpr ⟨u, rfl⟩
  | again u _ _ ih => exact List.forall_mem_cons.mpr ⟨⟨u, rfl⟩, ih⟩

theorem length_found {u : InUse σ} {earlier : List (Attempt σ)} {last : Attempt σ}
    (h : Course p alloc call u earlier last) :
    ∀ x ∈ earlier ++ [last], x.found.buffer.length = 0 := by
  induction h with
  | last u _ =>
    intro x hx
    rcases List.mem_singleton.mp hx with rfl
    rfl
  | again u _ _ ih =>
    intro x hx
    rcases List.mem_cons.mp hx with rfl | hx
    · rfl
    · exact ih x hx

theorem settle_eq {u : InUse σ} {earlier : List (Attempt σ)} {last : Attempt σ}
    (h : Course p alloc call u earlier last) :
    ∃ e, p.settle alloc call u = some e ∧ Yields p alloc earlier last e := by
  induction h with
  | last u hn =>
    obtain ⟨outcome, v, log, hc⟩ := SizingPolicy.exists_conclude_of_not_enlarged hn
    exact ⟨_, SizingPolicy.settle_of_last hc, by rw [hc], by rw [hc], by simp [hc]⟩
  | again u hb _ ih =>
    obtain ⟨e, he, hy⟩ := ih
    obtain ⟨log, hc⟩ := SizingPolicy.conclude_of_enlarged hb
    refine ⟨e.after log, ?_, hy.value, hy.state, ?_⟩
    · rw [SizingPolicy.settle_of_repeat hc, he]
      rfl
    · simp [hc, hy.log]

theorem exists_of_settle {u : InUse σ} {e : Effect (InUse σ) (Outcome Settled)}
    (h : p.settle alloc call u = some e) :
    ∃ earlier last, Course p alloc call u earlier last := by
  refine Run.loop_induction
    (motive := fun u _ => ∃ earlier last, Course p alloc call u earlier last) ?_ ?_ h
  · intro u outcome v log hc
    have hc : p.conclude alloc (call.attempt u) = _ := Option.some.inj hc
    refine ⟨[], call.attempt u, .last u ?_⟩
    intro b hb
    obtain ⟨log', hc'⟩ := SizingPolicy.conclude_of_enlarged hb
    rw [hc] at hc'
    cases hc'
  · rintro u v log e hc ⟨earlier, last, hrest⟩
    have hc : p.conclude alloc (call.attempt u) = _ := Option.some.inj hc
    obtain ⟨b, hb⟩ := SizingPolicy.enlarged_of_conclude (congrArg Effect.value hc)
    obtain ⟨log', hc'⟩ := SizingPolicy.conclude_of_enlarged hb
    rw [hc] at hc'
    cases hc'
    exact ⟨call.attempt u :: earlier, last, .again u hb hrest⟩

/-- Settling ends exactly with what a course yields. -/
theorem settle_eq_some_iff {u : InUse σ} {e : Effect (InUse σ) (Outcome Settled)} :
    p.settle alloc call u = some e ↔
      ∃ earlier last, Course p alloc call u earlier last ∧ Yields p alloc earlier last e := by
  constructor
  · intro h
    obtain ⟨earlier, last, ht⟩ := exists_of_settle h
    obtain ⟨e', he, hy⟩ := ht.settle_eq
    rw [h] at he
    cases he
    exact ⟨earlier, last, ht, hy⟩
  · rintro ⟨earlier, last, ht, hy⟩
    obtain ⟨e', he, hy'⟩ := ht.settle_eq
    have hv : e'.value = e.value := Option.some.inj (hy'.value.symm.trans hy.value)
    have hs : e'.state = e.state := hy'.state.trans hy.state.symm
    have hl : e'.log = e.log := hy'.log.trans hy.log.symm
    rw [he]
    cases e
    cases e'
    simp only at hv hs hl
    rw [hv, hs, hl]

end Course

end NativeResource

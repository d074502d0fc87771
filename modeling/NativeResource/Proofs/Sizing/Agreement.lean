import NativeResource.Proofs.Sizing.Batches
/-!
Single runs and enumerations agree. Both size the buffer for a call in the same way, and they part
only over an answer that announces a batch or the end of the entries. Without one the enumeration
makes the attempts and the decoding of the single run, returns what that returns and leaves what
that leaves; it only reports how many items it has. At the end of the entries the single run fails
and the enumeration returns no items.
-/
namespace NativeResource

variable {σ α ν : Type} {p : SizingPolicy} {alloc : Allocator} {call : Call σ}

theorem Run.loop_of_none {β : Type} {step : Run σ (Option β)} {s : σ} (h : step s = none) :
    loop step s = none := by
  rw [loop, h]
  rfl

def Settled.signal : Settled → Signal
  | complete => .success
  | more _ => .moreEntries
  | exhausted _ => .noMoreEntries

theorem SizingPolicy.signal_of_conclude {x : Attempt σ} {settled : Settled}
    (h : (p.conclude alloc x).value = some (.returned settled)) :
    ∃ a, x.answer = some a ∧ a.code.signal = settled.signal := by
  cases ha : x.answer with
  | none =>
    rw [conclude_of_none ha] at h
    cases h
  | some a =>
    refine ⟨a, rfl, ?_⟩
    cases hs : a.code.signal with
    | insufficientBuffer =>
      cases hg : (p.grow alloc a x.left.buffer).result with
      | ok b =>
        rw [conclude_of_grow ha hs hg] at h
        cases h
      | error f =>
        rw [conclude_of_grow_error ha hs hg] at h
        cases h
    | success =>
      cases hb : x.left.buffer.setLength a.size with
      | ok b =>
        rw [conclude_of_success ha hs hb] at h
        cases h
        rfl
      | error f =>
        rw [conclude_of_tooLong ha (.inl hs) hb] at h
        cases h
    | moreEntries =>
      cases hb : x.left.buffer.setLength a.size with
      | ok b =>
        rw [conclude_of_moreEntries ha hs hb] at h
        cases h
        rfl
      | error f =>
        rw [conclude_of_tooLong ha (.inr hs) hb] at h
        cases h
    | noMoreEntries =>
      rw [conclude_of_noMoreEntries ha hs] at h
      cases h
      rfl
    | failure =>
      rw [conclude_of_failure ha hs] at h
      cases h

/-- Keeps how much room each attempt and each decoding had. -/
def Observer.capacities : Observer Nat := ⟨fun found _ _ => found.capacity, fun b _ => b.capacity⟩

inductive Growths (p : SizingPolicy) (alloc : Allocator) (call : Call σ) :
    InUse σ → List (Attempt σ) → InUse σ → Prop where
  | refl (u : InUse σ) : Growths p alloc call u [] u
  | head {u v : InUse σ} {b : Buffer} {attempts : List (Attempt σ)} :
      p.Enlarged alloc (call.attempt u) b →
      Growths p alloc call ⟨b, (call.attempt u).left.state⟩ attempts v →
      Growths p alloc call u (call.attempt u :: attempts) v

theorem Course.of_observed {o : Observer ν} {u : InUse (σ × List ν)}
    {earlier : List (Attempt (σ × List ν))} {last : Attempt (σ × List ν)}
    (h : Course p alloc (call.observed o) u earlier last) :
    ∃ earlier' last', Course p alloc call (u.mapState Prod.fst) earlier' last' ∧
      last'.answer = last.answer := by
  induction h with
  | last u hn => exact ⟨[], _, .last (u.mapState Prod.fst) hn, rfl⟩
  | again u hb _ ih =>
    obtain ⟨earlier', last', hcourse, hanswer⟩ := ih
    exact ⟨_, last', .again (u.mapState Prod.fst) hb hcourse, hanswer⟩

namespace Session

variable {decode : Decoder σ (List α)} {u v : InUse σ} {s : Session σ} {n : Nat} {b : Buffer}
  {rest : Pool}

/-- What an enumeration reports of an outcome, and a single run does not. -/
def completion : Outcome (List α) → List Event
  | .returned items => [.enumerationComplete items.length]
  | .failed _ | .panicked => []

/-- The second run left everything as the first one did, and reported some events more. -/
structure AlikeBut (extra : List Event) (e e' : Effect (Session σ) (Outcome (List α))) :
    Prop where
  state : e'.state = e.state
  log : ∃ before after, e.log = before ++ after ∧ e'.log = before ++ extra ++ after

/-- The second run also returned what the first one did, and reported its items. -/
structure Announces (e e' : Effect (Session σ) (Outcome (List α))) : Prop where
  value : e'.value = e.value
  alike : AlikeBut (completion e.value) e e'

/-- The second run came to the end of the entries, and the first one took it for a failure. -/
structure Exhausts (code : Code) (e e' : Effect (Session σ) (Outcome (List α))) : Prop where
  failed : ∃ f, e.value = .failed f ∧ f.kind = .notFound ∧ f.code = some code
  returned : e'.value = .returned []
  alike : AlikeBut [.enumerationExhausted 0] e e'

/-- The attempt that a run over a session sizes its buffer by, after those that asked for more. -/
def Decisive (p : SizingPolicy) (alloc : Allocator) (n : Nat) (call : Call σ) (s : Session σ)
    (x : Attempt σ) : Prop :=
  ∃ b rest earlier, s.pool.acquire alloc n = (.ok b, rest) ∧
    Course p alloc call ⟨b, s.state⟩ earlier x

theorem settleBatches_of_settle {settled : Effect (InUse σ) (Outcome Settled)}
    {outcome : Outcome (List α)} {log : List Event} (h : p.settle alloc call u = some settled)
    (hd : decodeBatch decode [] settled.value settled.state = ⟨.ended outcome, v, log⟩) :
    settleBatches p alloc call decode u = some ⟨outcome, v, settled.log ++ log⟩ := by
  have hbatch : settleBatch p alloc call decode [] u =
      some ⟨.ended outcome, v, settled.log ++ log⟩ :=
    Run.bind_eq_some.mpr ⟨_, _, h, congrArg some hd, rfl⟩
  have hstep : readBatch p alloc call decode ⟨[], u⟩ =
      some ⟨some outcome, ⟨[], v⟩, settled.log ++ log⟩ := by
    simp only [readBatch, hbatch]
    rfl
  rw [settleBatches, Run.loop_of_done hstep]
  rfl

theorem settleBatches_eq_none (h : p.settle alloc call u = none) :
    settleBatches p alloc call decode u = none := by
  have hstep : readBatch p alloc call decode ⟨[], u⟩ = none := by
    cases hread : readBatch p alloc call decode ⟨[], u⟩ with
    | none => rfl
    | some e =>
      obtain ⟨batch, hbatch, -⟩ := readBatch_eq_some hread
      obtain ⟨settled, -, hsettled, -⟩ := Run.bind_eq_some.mp hbatch
      rw [h] at hsettled
      cases hsettled
  rw [settleBatches, Run.loop_of_none hstep]
  rfl

theorem decodeBatch_nil {settled : Outcome Settled}
    (h : ∀ t, settled = .returned t → t = .complete) :
    decodeBatch decode [] settled u =
      ⟨.ended (decodeSettled decode settled u).value, (decodeSettled decode settled u).state,
        (decodeSettled decode settled u).log ++
          completion (decodeSettled decode settled u).value⟩ := by
  cases settled with
  | returned t =>
    cases h t rfl
    simp only [decodeBatch, decodeSettled, Action.bind_apply]
    cases (decodeBuffer decode u).value with
    | returned last => simp [Action.map_apply, Action.report, completion]
    | failed f => simp [Action.pure_apply, completion]
    | panicked => simp [Action.pure_apply, completion]
  | failed f => rfl
  | panicked => rfl

theorem enumerate_of_lease (h : s.pool.acquire alloc n = (.ok b, rest)) :
    enumerate p alloc n call decode s =
      (settleBatches p alloc call decode ⟨b, s.state⟩).map (giveBack rest) :=
  withLease_of_acquire h

theorem single_of_settle {settled : Effect (InUse σ) (Outcome Settled)}
    (hlease : s.pool.acquire alloc n = (.ok b, rest))
    (h : p.settle alloc call ⟨b, s.state⟩ = some settled) :
    single p alloc n call decode s = some (giveBack rest
      ((decodeSettled decode settled.value settled.state).after settled.log)) := by
  rw [single_of_lease hlease, settleOnce_of_settle h]
  rfl

theorem enumerate_of_settle {settled : Effect (InUse σ) (Outcome Settled)}
    {outcome : Outcome (List α)} {log : List Event}
    (hlease : s.pool.acquire alloc n = (.ok b, rest))
    (h : p.settle alloc call ⟨b, s.state⟩ = some settled)
    (hd : decodeBatch decode [] settled.value settled.state = ⟨.ended outcome, v, log⟩) :
    enumerate p alloc n call decode s =
      some (giveBack rest ⟨outcome, v, settled.log ++ log⟩) := by
  rw [enumerate_of_lease hlease, settleBatches_of_settle h hd]
  rfl

theorem announces_of_lease (hlease : s.pool.acquire alloc n = (.ok b, rest))
    (hplain : ∀ earlier last a, Course p alloc call ⟨b, s.state⟩ earlier last →
      last.answer = some a →
        a.code.signal ≠ .moreEntries ∧ a.code.signal ≠ .noMoreEntries) :
    Option.Rel Announces (single p alloc n call decode s)
      (enumerate p alloc n call decode s) := by
  cases hsettle : p.settle alloc call ⟨b, s.state⟩ with
  | none =>
    rw [single_of_lease hlease, enumerate_of_lease hlease, settleOnce_eq_none hsettle,
      settleBatches_eq_none hsettle]
    exact .none
  | some settled =>
    obtain ⟨earlier, last, hcourse, hyields⟩ := Course.settle_eq_some_iff.mp hsettle
    have hcomplete : ∀ t, settled.value = .returned t → t = .complete := by
      intro t ht
      have hvalue := hyields.value
      rw [ht] at hvalue
      obtain ⟨a, ha, hs⟩ := SizingPolicy.signal_of_conclude hvalue
      obtain ⟨hmore, hend⟩ := hplain earlier last a hcourse ha
      cases t with
      | complete => rfl
      | more => exact absurd hs hmore
      | exhausted => exact absurd hs hend
    rw [single_of_settle hlease hsettle,
      enumerate_of_settle hlease hsettle (decodeBatch_nil hcomplete)]
    refine .some ⟨rfl, rfl, ?_⟩
    refine ⟨settled.log ++ (decodeSettled decode settled.value settled.state).log, _, rfl, ?_⟩
    simp [giveBack, List.append_assoc]

/-- What no observer sees of the two runs is nothing that either of them depends on. -/
theorem announces_observed (o : Observer ν) (seen : List ν)
    (hlease : s.pool.acquire alloc n = (.ok b, rest))
    (hplain : ∀ earlier last a, Course p alloc call ⟨b, s.state⟩ earlier last →
      last.answer = some a →
        a.code.signal ≠ .moreEntries ∧ a.code.signal ≠ .noMoreEntries) :
    Option.Rel Announces (single p alloc n (call.observed o) (decode.observed o) (s.noted seen))
      (enumerate p alloc n (call.observed o) (decode.observed o) (s.noted seen)) := by
  have hlease' : (s.noted seen).pool.acquire alloc n = (.ok b, rest) := hlease
  apply announces_of_lease hlease'
  intro earlier last a hcourse ha
  obtain ⟨earlier', last', hcourse', hanswer⟩ := hcourse.of_observed
  exact hplain earlier' last' a hcourse' (hanswer.trans ha)

theorem exhausts_observed {earlier : List (Attempt σ)} {last : Attempt σ} {a : Answer}
    (o : Observer ν) (seen : List ν) (hlease : s.pool.acquire alloc n = (.ok b, rest))
    (hcourse : Course p alloc call ⟨b, s.state⟩ earlier last) (ha : last.answer = some a)
    (hs : a.code.signal = .noMoreEntries) :
    ∃ e e', single p alloc n (call.observed o) (decode.observed o) (s.noted seen) = some e ∧
      enumerate p alloc n (call.observed o) (decode.observed o) (s.noted seen) = some e' ∧
      Exhausts a.code e e' := by
  have hlease' : (s.noted seen).pool.acquire alloc n = (.ok b, rest) := hlease
  obtain ⟨settled, hsettle, hyields⟩ := hcourse.settle_eq
  have hvalue := hyields.value
  rw [SizingPolicy.conclude_of_noMoreEntries ha hs] at hvalue
  obtain ⟨notes, hsame⟩ : ∃ notes, p.settle alloc (call.observed o)
      (InUse.noted seen ⟨b, s.state⟩) =
        some ⟨.returned (.exhausted a.code), settled.state.noted notes, settled.log⟩ := by
    refine ⟨((earlier ++ [last]).map o.ofAttempt).reverse ++ seen, ?_⟩
    rw [hcourse.settle_observed o seen, hsettle, Option.some.inj hvalue]
    rfl
  have hsingle : single p alloc n (call.observed o) (decode.observed o) (s.noted seen) =
      some (giveBack rest
        ⟨.failed (.reported a.code), settled.state.noted notes, settled.log ++ []⟩) :=
    single_of_settle hlease' hsame
  have henumerate : enumerate p alloc n (call.observed o) (decode.observed o) (s.noted seen) =
      some (giveBack rest ⟨.returned [], settled.state.noted notes,
        settled.log ++ [.enumerationExhausted 0]⟩) :=
    enumerate_of_settle hlease' hsame rfl
  rw [List.append_nil] at hsingle
  exact ⟨_, _, hsingle, henumerate, ⟨_, rfl, Code.kind_of_noMoreEntries hs, rfl⟩, rfl, rfl,
    settled.log, _, rfl, rfl⟩

section Repeats

variable {log : List Event}

theorem settleOnce_of_repeat (h : p.conclude alloc (call.attempt u) = ⟨none, v, log⟩) :
    settleOnce p alloc call decode u =
      (settleOnce p alloc call decode v).map (Effect.after log) := by
  change (p.settle alloc call u).bind _ = ((p.settle alloc call v).bind _).map _
  rw [SizingPolicy.settle_of_repeat h]
  cases p.settle alloc call v with
  | none => rfl
  | some e => simp [Run.ofAction, Effect.after]

theorem settleBatches_of_repeat (h : p.conclude alloc (call.attempt u) = ⟨none, v, log⟩) :
    settleBatches p alloc call decode u =
      (settleBatches p alloc call decode v).map (Effect.after log) := by
  have hread : readBatch p alloc call decode ⟨[], u⟩ =
      (readBatch p alloc call decode ⟨[], v⟩).map (Effect.after log) := readBatch_of_repeat h
  rw [settleBatches, settleBatches, Run.loop_of_after hread, Option.map_map, Option.map_map]
  rfl

end Repeats

/-- As long as the call asks for more room and is given it, both runs do the same. -/
theorem passed_of_growths {attempts : List (Attempt σ)}
    (h : Growths p alloc call u attempts v) (decode : Decoder σ (List α)) :
    ∃ log, ∀ {ν : Type} (o : Observer ν) (seen : List ν),
      settleOnce p alloc (call.observed o) (decode.observed o) (u.noted seen) =
          (settleOnce p alloc (call.observed o) (decode.observed o)
            (v.noted ((attempts.map o.ofAttempt).reverse ++ seen))).map (Effect.after log) ∧
        settleBatches p alloc (call.observed o) (decode.observed o) (u.noted seen) =
          (settleBatches p alloc (call.observed o) (decode.observed o)
            (v.noted ((attempts.map o.ofAttempt).reverse ++ seen))).map (Effect.after log) := by
  induction h with
  | refl u =>
    refine ⟨[], fun o seen => ?_⟩
    simp only [Effect.after_nil, Option.map_id]
    exact ⟨rfl, rfl⟩
  | @head u v b attempts hb _ ih =>
    obtain ⟨first, hc⟩ := SizingPolicy.conclude_of_enlarged hb
    obtain ⟨log, hrest⟩ := ih
    refine ⟨first ++ log, ?_⟩
    intro ν o seen
    have ho := (call.notedBy_observed o).conclude p alloc u seen
    rw [hc] at ho
    obtain ⟨honce, hbatches⟩ := hrest o (o.ofAttempt (call.attempt u) :: seen)
    have hnotes : ((call.attempt u :: attempts).map o.ofAttempt).reverse ++ seen =
        (attempts.map o.ofAttempt).reverse ++ o.ofAttempt (call.attempt u) :: seen := by simp
    rw [hnotes, ← Effect.after_comp, ← Option.map_map, ← honce, ← Option.map_map, ← hbatches]
    exact ⟨settleOnce_of_repeat ho, settleBatches_of_repeat ho⟩

/-- Whoever observes them, a single run and an enumeration of one call go through the same growths,
even if these never end. If the answer after them announces neither a batch nor the end of the
entries, the two end with the same result, state and pool, after the same attempts and decodings,
and the enumeration reports its items; if it announces the end, the single run fails with its code
and the enumeration returns no items. -/
theorem single_and_enumerate_agree (p : SizingPolicy) (alloc : Allocator) (n : Nat)
    (call : Call σ) (decode : Decoder σ (List α)) (s : Session σ) :
    ((∀ x a, Decisive p alloc n call s x → x.answer = some a →
        a.code.signal ≠ .moreEntries ∧ a.code.signal ≠ .noMoreEntries) →
      ∀ {ν : Type} (o : Observer ν) (seen : List ν), Option.Rel Announces
        (single p alloc n (call.observed o) (decode.observed o) (s.noted seen))
        (enumerate p alloc n (call.observed o) (decode.observed o) (s.noted seen))) ∧
    (∀ x a, Decisive p alloc n call s x → x.answer = some a → a.code.signal = .noMoreEntries →
      ∀ {ν : Type} (o : Observer ν) (seen : List ν), ∃ e e',
        single p alloc n (call.observed o) (decode.observed o) (s.noted seen) = some e ∧
        enumerate p alloc n (call.observed o) (decode.observed o) (s.noted seen) = some e' ∧
        Exhausts a.code e e') ∧
    ∀ b rest attempts v, s.pool.acquire alloc n = (.ok b, rest) →
      Growths p alloc call ⟨b, s.state⟩ attempts v →
      ∃ log, ∀ {ν : Type} (o : Observer ν) (seen : List ν),
        single p alloc n (call.observed o) (decode.observed o) (s.noted seen) =
          (settleOnce p alloc (call.observed o) (decode.observed o)
            (v.noted ((attempts.map o.ofAttempt).reverse ++ seen))).map
              (fun e => giveBack rest (e.after log)) ∧
        enumerate p alloc n (call.observed o) (decode.observed o) (s.noted seen) =
          (settleBatches p alloc (call.observed o) (decode.observed o)
            (v.noted ((attempts.map o.ofAttempt).reverse ++ seen))).map
              (fun e => giveBack rest (e.after log)) := by
  refine ⟨?_, ?_, ?_⟩
  · intro hplain ν o seen
    cases hacquire : s.pool.acquire alloc n with
    | mk result rest =>
      cases result with
      | error f =>
        have hlease : (s.noted seen).pool.acquire alloc n = (.error f, rest) := hacquire
        rw [single, enumerate, withLease_of_refused hlease, withLease_of_refused hlease]
        exact .some ⟨rfl, rfl, [], [], rfl, rfl⟩
      | ok b =>
        apply announces_observed o seen hacquire
        intro earlier last a hcourse
        exact hplain last a ⟨b, rest, earlier, hacquire, hcourse⟩
  · rintro x a ⟨b, rest, earlier, hlease, hcourse⟩ ha hs ν o seen
    exact exhausts_observed o seen hlease hcourse ha hs
  · intro b rest attempts v hlease hgrowths
    obtain ⟨log, hpassed⟩ := passed_of_growths hgrowths decode
    refine ⟨log, ?_⟩
    intro ν o seen
    have hlease' : (s.noted seen).pool.acquire alloc n = (.ok b, rest) := hlease
    obtain ⟨honce, hbatches⟩ := hpassed o seen
    have hsingle := congrArg (Option.map (giveBack rest)) honce
    have henumerate := congrArg (Option.map (giveBack rest)) hbatches
    rw [Option.map_map] at hsingle henumerate
    exact ⟨(single_of_lease hlease').trans hsingle, (enumerate_of_lease hlease').trans henumerate⟩

theorem single_and_enumerate_agree_answering :
    let alloc : Allocator := ⟨fun _ => true⟩
    let s : Session Nat := ⟨⟨{}, []⟩, 0⟩
    let decode : Decoder Nat (List Nat) := fun _ size => pure (.returned [size])
    let growing := Call.answering [⟨.win32 Win32.moreData, 16⟩, ⟨.win32 Win32.success, 5⟩]
    let ended := Call.answering [⟨.win32 Win32.noMoreItems, 0⟩]
    ((∀ x a, Decisive {} alloc 0 growing s x → x.answer = some a →
        a.code.signal ≠ .moreEntries ∧ a.code.signal ≠ .noMoreEntries) ∧
      ∃ e e', single {} alloc 0 (growing.observed .capacities) (decode.observed .capacities)
            (s.noted []) = some e ∧
          enumerate {} alloc 0 (growing.observed .capacities) (decode.observed .capacities)
            (s.noted []) = some e' ∧
        Announces e e' ∧ e.value = .returned [5] ∧ e.state.state.2 = [256, 256, 0]) ∧
    Decisive {} alloc 0 ended s (ended.attempt ⟨.empty, 0⟩) ∧
      ∃ e e', single {} alloc 0 (ended.observed .capacities) (decode.observed .capacities)
            (s.noted []) = some e ∧
          enumerate {} alloc 0 (ended.observed .capacities) (decode.observed .capacities)
            (s.noted []) = some e' ∧
        Exhausts (.win32 Win32.noMoreItems) e e' := by
  intro alloc s decode growing ended
  have hlease : s.pool.acquire alloc 0 = (.ok .empty, ⟨{}, []⟩) := rfl
  constructor
  · have hplain : ∀ x a, Decisive {} alloc 0 growing s x → x.answer = some a →
        a.code.signal ≠ .moreEntries ∧ a.code.signal ≠ .noMoreEntries := by
      rintro x a ⟨b, rest, earlier, -, hcourse⟩ ha
      obtain ⟨v, rfl⟩ := hcourse.exists_attempt x (List.mem_append_right _ List.mem_cons_self)
      have hmem := Call.mem_of_answering ha
      simp only [List.mem_cons, List.not_mem_nil, or_false] at hmem
      rcases hmem with rfl | rfl <;> decide
    let grown : Buffer := Buffer.empty.extend 256 (by decide)
    have hgrown : (SizingPolicy.grow {} alloc ⟨.win32 Win32.moreData, 16⟩ .empty).result =
        .ok grown := rfl
    have hcapacity : grown.capacity = 256 := Buffer.capacity_extend_empty 256 (by decide)
    have hcourse : Course {} alloc growing ⟨.empty, 0⟩ [growing.attempt ⟨.empty, 0⟩]
        (growing.attempt ⟨grown, 1⟩) :=
      .again _ ⟨_, rfl, rfl, hgrown⟩
        (.last _ (SizingPolicy.not_enlarged_of_signal rfl rfl (by decide)))
    obtain ⟨e, decoded, -, hrun⟩ := SingleRun.exists_of_course decode hlease hcourse
    have hroom : 5 ≤ (growing.attempt ⟨grown, 1⟩).left.buffer.capacity :=
      Nat.le_trans (by decide) (Nat.le_of_eq hcapacity.symm)
    obtain ⟨d, rfl, hbytes, -, hvalue⟩ :=
      hrun.verdict.decoded_of_success (a := ⟨.win32 Win32.success, 5⟩) rfl rfl hroom
    have hdecoded : d.capacity = 256 := (congrArg ByteArray.size hbytes).trans hcapacity
    have hsingle := hrun.noted .capacities []
    have hagree := (single_and_enumerate_agree {} alloc 0 growing decode s).1 hplain .capacities []
    rw [hsingle] at hagree
    generalize enumerate _ _ _ _ _ _ = other at hagree
    cases hagree with
    | some hannounces =>
      refine ⟨hplain, _, _, hsingle, rfl, hannounces, hvalue, ?_⟩
      change [d.capacity, grown.capacity, 0] = [256, 256, 0]
      rw [hdecoded, hcapacity]
  · have hdecisive : Decisive {} alloc 0 ended s (ended.attempt ⟨.empty, 0⟩) :=
      ⟨.empty, ⟨{}, []⟩, [], hlease,
        .last _ (SizingPolicy.not_enlarged_of_signal rfl rfl (by decide))⟩
    obtain ⟨-, hexhausts, -⟩ := single_and_enumerate_agree {} alloc 0 ended decode s
    exact ⟨hdecisive, hexhausts _ _ hdecisive rfl rfl .capacities []⟩

end Session

end NativeResource

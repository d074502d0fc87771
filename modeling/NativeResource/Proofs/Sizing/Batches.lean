import NativeResource.Proofs.Sizing.Rounds
import NativeResource.Proofs.Sizing.Service
/-!
An enumeration reads every batch once and in order. Each round decodes what its own attempt left,
if that was announced as a batch or as the end and fits, and nothing otherwise; the next attempt
finds the buffer as the decoder saw it, or grown; and the items are those of the rounds, one after
the other.
-/
namespace NativeResource

variable {σ α ν : Type} {p : SizingPolicy} {alloc : Allocator} {call : Call σ}
  {decode : Decoder σ (List α)} {items : List α} {x : Attempt σ} {y z last : Round σ α}
  {rounds : List (Round σ α)} {outcome : Outcome (List α)} {u v : InUse σ}

def Attempt.Delivers (x : Attempt σ) : Prop :=
  ∃ a, x.answer = some a ∧ (a.code.signal = .success ∨ a.code.signal = .moreEntries) ∧
    a.size ≤ x.left.buffer.capacity

namespace Round

/-- What is decoded in a round is what its attempt delivered: the bytes that it left, with the size
that it answered as their length and as the decoder's second argument. -/
structure Exact (decode : Decoder σ (List α)) (y : Round σ α) : Prop where
  decoded_iff : y.decoded ≠ none ↔ y.attempt.Delivers
  as_left : ∀ b n, y.decoded = some (b, n) → y.attempt.answer.map Answer.size = some n ∧
    b.length = n ∧ b.bytes = y.attempt.left.buffer.bytes
  returned : ∀ b n batch, y.decoded = some (b, n) →
    (decode b n y.attempt.left.state).value = .returned batch → y.items = batch
  nothing : y.decoded = none → y.items = []

/-- How the next attempt finds what a round left: the buffer as it was decoded, with its length
reset, or, if there was nothing to decode, a larger one with the same contents. -/
structure Follows (decode : Decoder σ (List α)) (y z : Round σ α) : Prop where
  after_decoding : ∀ b n, y.decoded = some (b, n) →
    z.attempt.found = ⟨b.clear, (decode b n y.attempt.left.state).state⟩
  after_growth : y.decoded = none →
    (∃ a, y.attempt.answer = some a ∧ a.code.signal = .insufficientBuffer) ∧
      z.attempt.found.state = y.attempt.left.state ∧
      y.attempt.left.buffer.capacity < z.attempt.found.buffer.capacity ∧
      ∀ i < y.attempt.left.buffer.capacity,
        Bytes.get z.attempt.found.buffer.bytes i = Bytes.get y.attempt.left.buffer.bytes i

def notes (o : Observer ν) (y : Round σ α) : List ν :=
  (y.decoded.map fun d => o.decoding d.1 d.2).toList ++ [o.ofAttempt y.attempt]

theorem Exact.of_decoded {a : Answer} {b : Buffer} {log : List Event}
    (ha : x.answer = some a) (hs : a.code.signal = .success ∨ a.code.signal = .moreEntries)
    (hb : x.left.buffer.setLength a.size = .ok b)
    (hitems : ∀ batch, (decode b a.size x.left.state).value = .returned batch → items = batch) :
    Exact decode ⟨x, some (b, a.size), items, log⟩ := by
  have hset := Buffer.setLength_setsLength a.size x.left.buffer
  rw [hb] at hset
  obtain ⟨hfits, hlength, hbytes⟩ := hset
  refine ⟨?_, ?_, ?_, nofun⟩
  · constructor
    · intro _
      exact ⟨a, ha, hs, hfits⟩
    · intro _
      exact Option.some_ne_none _
  · intro c n hc
    cases hc
    refine ⟨?_, hlength, hbytes⟩
    rw [ha]
    rfl
  · intro c n batch hc hbatch
    cases hc
    exact hitems batch hbatch

theorem Exact.of_undecoded {log : List Event} (h : ¬ x.Delivers) :
    Exact decode ⟨x, none, [], log⟩ := by
  refine ⟨?_, nofun, nofun, fun _ => rfl⟩
  constructor
  · intro hdecoded
    exact absurd rfl hdecoded
  · intro hdelivers
    exact absurd hdelivers h

end Round

theorem Attempt.not_delivers_of_signal {a : Answer} (ha : x.answer = some a)
    (hsuccess : a.code.signal ≠ .success) (hmore : a.code.signal ≠ .moreEntries) :
    ¬ x.Delivers := by
  rintro ⟨a', ha', hs | hs, -⟩
  · rw [ha] at ha'
    cases ha'
    exact hsuccess hs
  · rw [ha] at ha'
    cases ha'
    exact hmore hs

namespace SizingPolicy

theorem get_of_grow {a : Answer} {b c : Buffer} (h : (p.grow alloc a b).result = .ok c)
    (i : Nat) : Bytes.get c.bytes i = Bytes.get b.bytes i := by
  cases ht : p.target? b.capacity a.size with
  | none =>
    rw [grow_of_refused ht] at h
    cases h
  | some t =>
    rw [grow_of_target ht] at h
    exact Buffer.get_of_reserve h i

end SizingPolicy

namespace Session

variable {r m r' : Reading σ α}

theorem Continues.attempt_eq (h : Continues p alloc decode items x y m) : y.attempt = x := by
  cases h <;> rfl

theorem Concludes.attempt_eq (h : Concludes p alloc decode items x y outcome v) :
    y.attempt = x := by
  cases h <;> rfl

theorem Continues.exact (h : Continues p alloc decode items x y m) : y.Exact decode := by
  cases h with
  | grown ha hs _ =>
    refine .of_undecoded (Attempt.not_delivers_of_signal ha ?_ ?_) <;> rw [hs] <;> nofun
  | more ha hs hb hd =>
    refine .of_decoded ha (.inr hs) hb ?_
    intro batch hbatch
    rw [hd] at hbatch
    exact Outcome.returned.inj hbatch

theorem Concludes.exact (h : Concludes p alloc decode items x y outcome v) :
    y.Exact decode := by
  cases h with
  | complete ha hs hb hd =>
    refine .of_decoded ha (.inl hs) hb ?_
    intro batch hbatch
    rw [hd] at hbatch
    exact Outcome.returned.inj hbatch
  | undecoded ha hs hb hd | abandoned ha hs hb hd =>
    refine .of_decoded ha hs hb ?_
    intro batch hbatch
    rw [hd] at hbatch
    cases hbatch
  | exhausted ha hs | reported ha hs | ungrown ha hs _ =>
    refine .of_undecoded (Attempt.not_delivers_of_signal ha ?_ ?_) <;> rw [hs] <;> nofun
  | @tooLong a f ha hs hb =>
    apply Round.Exact.of_undecoded
    rintro ⟨a', ha', -, hfits⟩
    rw [ha] at ha'
    cases ha'
    have hset := Buffer.setLength_setsLength a.size x.left.buffer
    rw [hb] at hset
    exact Nat.not_le.mpr hset.1 hfits
  | unwound ha =>
    apply Round.Exact.of_undecoded
    rintro ⟨a, ha', -⟩
    rw [ha] at ha'
    cases ha'

theorem Continues.follows (h : Continues p alloc decode items x y m)
    (hz : z.attempt = call.attempt m.used) : y.Follows decode z := by
  have hfound : z.attempt.found = m.used.clear := by rw [hz]; rfl
  cases h with
  | grown ha hs hg =>
    have hlarger := SizingPolicy.lt_capacity_of_grow hg
    have hkept := SizingPolicy.get_of_grow hg
    refine ⟨nofun, fun _ => ⟨⟨_, ha, hs⟩, ?_, ?_, ?_⟩⟩
    · rw [hfound]
      rfl
    · rw [hfound]
      exact hlarger
    · intro i _
      rw [hfound]
      exact hkept i
  | more ha hs hb hd =>
    refine ⟨?_, nofun⟩
    intro b n hdecoded
    cases hdecoded
    rw [hfound, hd]
    rfl

theorem Continues.items_eq (h : Continues p alloc decode items x y m) :
    m.items = items ++ y.items := by
  cases h with
  | grown => exact (List.append_nil items).symm
  | more => rfl

theorem Concludes.items_eq {all : List α}
    (h : Concludes p alloc decode items x last (.returned all) v) : all = items ++ last.items := by
  cases h with
  | complete => rfl
  | exhausted => exact (List.append_nil items).symm

theorem Rounds.exact (h : Rounds p alloc call decode r rounds m) :
    ∀ y ∈ rounds, y.Exact decode := by
  induction h with
  | refl => exact nofun
  | head hy _ ih =>
    intro z hz
    rcases List.mem_cons.mp hz with rfl | hz
    · exact hy.exact
    · exact ih z hz

theorem Rounds.items_eq (h : Rounds p alloc call decode r rounds m) :
    m.items = r.items ++ rounds.flatMap Round.items := by
  induction h with
  | refl r => exact (List.append_nil r.items).symm
  | head hy _ ih => rw [ih, hy.items_eq, List.append_assoc, List.flatMap_cons]

theorem Rounds.exists_cons (h : Rounds p alloc call decode r rounds m)
    (hz : z.attempt = call.attempt m.used) :
    ∃ first rest, rounds ++ [z] = first :: rest ∧ first.attempt = call.attempt r.used := by
  cases h with
  | refl => exact ⟨z, [], rfl, hz⟩
  | head hy _ => exact ⟨_, _, rfl, hy.attempt_eq⟩

/-- What holds between a round and the attempt that it leads to holds all along the rounds. -/
theorem Rounds.isChain {R : Round σ α → Round σ α → Prop}
    (hleads : ∀ {r m : Reading σ α} {x y : Round σ α},
      Continues p alloc decode r.items (call.attempt r.used) x m →
        y.attempt = call.attempt m.used → R x y)
    (h : Rounds p alloc call decode r rounds m) (hz : z.attempt = call.attempt m.used) :
    (rounds ++ [z]).IsChain R := by
  induction h with
  | refl => exact .singleton z
  | head hy hrest ih =>
    obtain ⟨first, rest, hcons, hfirst⟩ := hrest.exists_cons hz
    have hchain := ih hz
    rw [List.cons_append, hcons]
    rw [hcons] at hchain
    exact .cons_cons (hleads hy hfirst) hchain

theorem Continues.observed (o : Observer ν) (seen : List ν)
    (h : Continues p alloc decode items (call.attempt u) y m) :
    ∃ y', Continues p alloc (decode.observed o) items
        ((call.observed o).attempt (u.noted seen)) y'
        ⟨m.items, m.used.noted (y.notes o ++ seen)⟩ ∧ y'.log = y.log := by
  cases h with
  | grown ha hs hg => exact ⟨_, .grown ha hs hg, rfl⟩
  | @more a b batch t log ha hs hb hd =>
    have hd' : (decode.observed o) b a.size
        ((call.attempt u).left.state, o.ofAttempt (call.attempt u) :: seen) =
        ⟨.returned batch, (t, o.decoding b a.size :: o.ofAttempt (call.attempt u) :: seen),
          log⟩ := by
      simp only [Decoder.observed, hd]
    exact ⟨_, .more ha hs hb hd', rfl⟩

theorem Concludes.observed (o : Observer ν) (seen : List ν)
    (h : Concludes p alloc decode items (call.attempt u) last outcome v) :
    ∃ last', Concludes p alloc (decode.observed o) items
        ((call.observed o).attempt (u.noted seen)) last' outcome
        (v.noted (last.notes o ++ seen)) ∧ last'.log = last.log := by
  have hdecoded : ∀ {a : Answer} {b : Buffer} {value : Outcome (List α)} {t : σ}
      {log : List Event}, decode b a.size (call.attempt u).left.state = ⟨value, t, log⟩ →
      (decode.observed o) b a.size
        ((call.attempt u).left.state, o.ofAttempt (call.attempt u) :: seen) =
        ⟨value, (t, o.decoding b a.size :: o.ofAttempt (call.attempt u) :: seen), log⟩ := by
    intro a b value t log hd
    simp only [Decoder.observed, hd]
  cases h with
  | complete ha hs hb hd => exact ⟨_, .complete ha hs hb (hdecoded hd), rfl⟩
  | exhausted ha hs => exact ⟨_, .exhausted ha hs, rfl⟩
  | undecoded ha hs hb hd => exact ⟨_, .undecoded ha hs hb (hdecoded hd), rfl⟩
  | abandoned ha hs hb hd => exact ⟨_, .abandoned ha hs hb (hdecoded hd), rfl⟩
  | tooLong ha hs hb => exact ⟨_, .tooLong ha hs hb, rfl⟩
  | reported ha hs => exact ⟨_, .reported ha hs, rfl⟩
  | ungrown ha hs hg => exact ⟨_, .ungrown ha hs hg, rfl⟩
  | unwound ha => exact ⟨_, .unwound ha, rfl⟩

/-- An observer keeps the notes of all rounds, in their order, and the run reports the same. -/
theorem Rounds.observed (o : Observer ν) (seen : List ν)
    (h : Rounds p alloc call decode r rounds m) :
    ∃ rounds', Rounds p alloc (call.observed o) (decode.observed o)
        ⟨r.items, r.used.noted seen⟩ rounds'
        ⟨m.items, m.used.noted (rounds.reverse.flatMap (Round.notes o) ++ seen)⟩ ∧
      rounds'.flatMap Round.log = rounds.flatMap Round.log := by
  induction h generalizing seen with
  | refl r => exact ⟨[], .refl _, rfl⟩
  | @head r m r' y rounds hy _ ih =>
    obtain ⟨y', hy', hlog⟩ := hy.observed o seen
    obtain ⟨rounds', hrounds', hlogs⟩ := ih (y.notes o ++ seen)
    refine ⟨y' :: rounds', .head hy' ?_, ?_⟩
    · simpa [List.flatMap_append] using hrounds'
    · rw [List.flatMap_cons, List.flatMap_cons, hlog, hlogs]

variable {n : Nat} {s : Session σ} {b : Buffer} {rest : Pool}

/-- An enumeration that ended: the rounds it went through, the last one, and what came of them. -/
structure EnumerationRun (p : SizingPolicy) (alloc : Allocator) (n : Nat) (call : Call σ)
    (decode : Decoder σ (List α)) (s : Session σ) (b : Buffer) (rest : Pool)
    (e : Effect (Session σ) (Outcome (List α))) (rounds : List (Round σ α))
    (last : Round σ α) : Prop where
  reached : ∃ r v, Rounds p alloc call decode ⟨[], ⟨b, s.state⟩⟩ rounds r ∧
    Concludes p alloc decode r.items (call.attempt r.used) last e.value v ∧
    e = giveBack rest ⟨e.value, v, (rounds ++ [last]).flatMap Round.log⟩
  exact : ∀ y ∈ rounds ++ [last], y.Exact decode
  chained : (rounds ++ [last]).IsChain (Round.Follows decode)
  returned : ∀ items, e.value = .returned items →
    items = (rounds ++ [last]).flatMap Round.items
  noted : ∀ {ν : Type} (o : Observer ν) (seen : List ν),
    enumerate p alloc n (call.observed o) (decode.observed o) (s.noted seen) =
      some (e.onState (Session.noted
        ((rounds ++ [last]).reverse.flatMap (Round.notes o) ++ seen)))

/-- An enumeration while it runs, and whether it ends or not. -/
structure Enumerated (p : SizingPolicy) (alloc : Allocator) (n : Nat) (call : Call σ)
    (decode : Decoder σ (List α)) (s : Session σ) (b : Buffer) (rest : Pool) : Prop where
  exact : ∀ rounds r, Rounds p alloc call decode ⟨[], ⟨b, s.state⟩⟩ rounds r →
    ∀ y ∈ rounds, y.Exact decode
  chained : ∀ rounds r z, Rounds p alloc call decode ⟨[], ⟨b, s.state⟩⟩ rounds r →
    z.attempt = call.attempt r.used → (rounds ++ [z]).IsChain (Round.Follows decode)
  items_eq : ∀ rounds r, Rounds p alloc call decode ⟨[], ⟨b, s.state⟩⟩ rounds r →
    r.items = rounds.flatMap Round.items
  passed : ∀ rounds r, Rounds p alloc call decode ⟨[], ⟨b, s.state⟩⟩ rounds r →
    ∀ {ν : Type} (o : Observer ν) (seen : List ν),
      enumerate p alloc n (call.observed o) (decode.observed o) (s.noted seen) =
        (Run.loop (readBatch p alloc (call.observed o) (decode.observed o))
          ⟨r.items, r.used.noted (rounds.reverse.flatMap (Round.notes o) ++ seen)⟩).map fun e =>
            giveBack rest ⟨e.value, e.state.used, rounds.flatMap Round.log ++ e.log⟩
  ends_iff : ∀ e, enumerate p alloc n call decode s = some e ↔
    ∃ rounds last, EnumerationRun p alloc n call decode s b rest e rounds last
  endless_iff : enumerate p alloc n call decode s = none ↔
    ∀ k, ∃ rounds r, Rounds p alloc call decode ⟨[], ⟨b, s.state⟩⟩ rounds r ∧ rounds.length = k

theorem enumerate_of_acquire (hlease : s.pool.acquire alloc n = (.ok b, rest)) :
    enumerate p alloc n call decode s =
      (Run.loop (readBatch p alloc call decode) ⟨[], ⟨b, s.state⟩⟩).map fun e =>
        giveBack rest ⟨e.value, e.state.used, e.log⟩ := by
  rw [enumerate, withLease_of_acquire hlease, settleBatches, Option.map_map]
  rfl

theorem enumerate_of_rounds (hlease : s.pool.acquire alloc n = (.ok b, rest))
    (hrounds : Rounds p alloc call decode ⟨[], ⟨b, s.state⟩⟩ rounds r)
    (hlast : Concludes p alloc decode r.items (call.attempt r.used) last outcome v) :
    enumerate p alloc n call decode s =
      some (giveBack rest ⟨outcome, v, (rounds ++ [last]).flatMap Round.log⟩) := by
  rw [enumerate_of_acquire hlease, hrounds.loop_eq, hlast.loop_eq, List.flatMap_append]
  simp [Effect.after]

theorem EnumerationRun.of_rounds (hlease : s.pool.acquire alloc n = (.ok b, rest))
    (hrounds : Rounds p alloc call decode ⟨[], ⟨b, s.state⟩⟩ rounds r)
    (hlast : Concludes p alloc decode r.items (call.attempt r.used) last outcome v) :
    EnumerationRun p alloc n call decode s b rest
      (giveBack rest ⟨outcome, v, (rounds ++ [last]).flatMap Round.log⟩) rounds last := by
  refine ⟨⟨r, v, hrounds, hlast, rfl⟩, ?_, hrounds.isChain Continues.follows hlast.attempt_eq,
    ?_, ?_⟩
  · intro y hy
    rcases List.mem_append.mp hy with hy | hy
    · exact hrounds.exact y hy
    · rcases List.mem_singleton.mp hy with rfl
      exact hlast.exact
  · intro items houtcome
    cases houtcome
    rw [hlast.items_eq, hrounds.items_eq, List.flatMap_append, List.flatMap_singleton]
    rfl
  · intro ν o seen
    have hlease' : (s.noted seen).pool.acquire alloc n = (.ok b, rest) := hlease
    obtain ⟨rounds', hrounds', hlogs⟩ := hrounds.observed o seen
    obtain ⟨last', hlast', hlog⟩ :=
      hlast.observed o (rounds.reverse.flatMap (Round.notes o) ++ seen)
    rw [enumerate_of_rounds hlease' hrounds' hlast']
    simp only [List.flatMap_append, List.flatMap_singleton, hlogs, hlog, List.reverse_append,
      List.reverse_singleton, List.append_assoc]
    rfl

theorem Enumerated.of_acquire (hlease : s.pool.acquire alloc n = (.ok b, rest)) :
    Enumerated p alloc n call decode s b rest := by
  refine ⟨?_, ?_, ?_, ?_, ?_, ?_⟩
  · intro rounds r hrounds
    exact hrounds.exact
  · intro rounds r z hrounds hz
    exact hrounds.isChain Continues.follows hz
  · intro rounds r hrounds
    exact hrounds.items_eq
  · intro rounds r hrounds ν o seen
    have hlease' : (s.noted seen).pool.acquire alloc n = (.ok b, rest) := hlease
    obtain ⟨rounds', hrounds', hlogs⟩ := hrounds.observed o seen
    have hloop := hrounds'.loop_eq
    rw [hlogs] at hloop
    rw [enumerate_of_acquire hlease']
    have hpassed := congrArg (Option.map fun (e : Effect (Reading (σ × List ν) α) _) =>
      giveBack rest ⟨e.value, e.state.used, e.log⟩) hloop
    rwa [Option.map_map] at hpassed
  · intro e
    constructor
    · intro he
      have hloop := he
      rw [enumerate_of_acquire hlease] at hloop
      obtain ⟨ended, hended, -⟩ := Option.map_eq_some_iff.mp hloop
      obtain ⟨rounds, r, last, outcome, v, hrounds, hlast⟩ := ends_of_loop hended
      rw [enumerate_of_rounds hlease hrounds hlast] at he
      cases he
      exact ⟨rounds, last, .of_rounds hlease hrounds hlast⟩
    · rintro ⟨rounds, last, hrun⟩
      obtain ⟨r, v, hrounds, hlast, he⟩ := hrun.reached
      rw [enumerate_of_rounds hlease hrounds hlast, he]
      rfl
  · rw [enumerate_of_acquire hlease, Option.map_eq_none_iff]
    exact loop_eq_none_iff

/-- With its lease, an enumeration goes through its rounds, each batch decoded once, from what its
attempt left, and none of them lost, repeated or out of order; and it ends with the first round
that does not lead on. Without its lease it runs nothing. -/
theorem enumeration_decodes_every_batch_once (p : SizingPolicy) (alloc : Allocator) (n : Nat)
    (call : Call σ) (decode : Decoder σ (List α)) (s : Session σ) :
    (∀ b rest, s.pool.acquire alloc n = (.ok b, rest) →
      Enumerated p alloc n call decode s b rest) ∧
    ∀ f rest, s.pool.acquire alloc n = (.error f, rest) →
      ∀ {ν : Type} (o : Observer ν) (seen : List ν),
        enumerate p alloc n (call.observed o) (decode.observed o) (s.noted seen) =
          some ⟨.failed f, Session.noted seen ⟨rest, s.state⟩, []⟩ := by
  constructor
  · intro b rest hlease
    exact .of_acquire hlease
  · intro f rest hlease ν o seen
    have hlease' : (s.noted seen).pool.acquire alloc n = (.error f, rest) := hlease
    simp only [enumerate, withLease, hlease']
    rfl

end Session

def Call.answering (answers : List Answer) : Call Nat := fun u =>
  ⟨answers[u.state]?, ⟨u.buffer, u.state + 1⟩, []⟩

theorem Call.mem_of_answering {answers : List Answer} {u : InUse Nat} {a : Answer}
    (h : ((answering answers).attempt u).answer = some a) : a ∈ answers := List.mem_of_getElem? h

namespace Session

theorem enumeration_decodes_every_batch_once_answering :
    Pool.acquire ⟨fun _ => true⟩ 0 ⟨{}, []⟩ = (.ok .empty, ⟨{}, []⟩) ∧
      ∃ e, enumerate {} ⟨fun _ => true⟩ 0
          (Call.answering [⟨.win32 Win32.moreData, 16⟩, ⟨.ntStatus NtStatus.moreEntries, 3⟩,
            ⟨.win32 Win32.success, 5⟩])
          (fun _ size => pure (.returned [size])) ⟨⟨{}, []⟩, 0⟩ = some e ∧
        e.value = .returned [3, 5] := by
  have hlease : Pool.acquire ⟨fun _ => true⟩ 0 ⟨{}, []⟩ = (.ok .empty, ⟨{}, []⟩) := rfl
  let call := Call.answering [⟨.win32 Win32.moreData, 16⟩, ⟨.ntStatus NtStatus.moreEntries, 3⟩,
    ⟨.win32 Win32.success, 5⟩]
  let decode : Decoder Nat (List Nat) := fun _ size => pure (.returned [size])
  have henumerated := (enumeration_decodes_every_batch_once {} ⟨fun _ => true⟩ 0 call decode
    ⟨⟨{}, []⟩, 0⟩).1 .empty ⟨{}, []⟩ hlease
  refine ⟨hlease, ?_⟩
  have htarget : SizingPolicy.target? {} Buffer.empty.capacity 16 = some 256 := by decide
  have hgrown : ∃ b, (SizingPolicy.grow {} ⟨fun _ => true⟩ ⟨.win32 Win32.moreData, 16⟩
      Buffer.empty).result = .ok b :=
    SizingPolicy.exists_grow (Allocator.serves_of_provides (by decide)) htarget
  obtain ⟨b, hb⟩ := hgrown
  have hcapacity : 16 ≤ b.capacity := SizingPolicy.size_le_of_grow hb
  obtain ⟨c, hc, -, hbytes⟩ := Buffer.setLength_of_le (n := 3) (b := b.clear) (by
    rw [Buffer.capacity_clear]
    omega)
  obtain ⟨d, hd, -, -⟩ := Buffer.setLength_of_le (n := 5) (b := c.clear) (by
    rw [Buffer.capacity_clear, Buffer.capacity_of_setLength hc, Buffer.capacity_clear]
    omega)
  have hrounds : Rounds {} ⟨fun _ => true⟩ call decode ⟨[], ⟨.empty, 0⟩⟩ _ ⟨[3], ⟨c, 2⟩⟩ :=
    .head (.grown rfl rfl hb) (.head (.more rfl rfl hc rfl) (.refl _))
  have hlast : Concludes {} ⟨fun _ => true⟩ decode [3] (call.attempt ⟨c, 2⟩) _
      (.returned [3, 5]) ⟨d, 3⟩ := .complete rfl rfl hd rfl
  exact ⟨_, (henumerated.ends_iff _).mpr ⟨_, _, .of_rounds hlease hrounds hlast⟩, rfl⟩

end Session

end NativeResource

import NativeResource.Proofs.Broker.Value
import NativeResource.Proofs.Host.Slots
import NativeResource.Proofs.Pool.Conservation
import NativeResource.Proofs.Sizing.Noting
/-!
Listing a directory. The calls for the entries follow one another: each is told the context that
the one before left, with the buffer grown for it or with that of the batch before, and what it
delivers is read from the slots that it left. The listing is what all of them delivered, in their
order.
-/
namespace NativeResource

variable {ω : Type}

/-- One call for the entries of a directory: the state of the host that it met, the buffer that it
had, and the context that it was told. -/
structure DirectoryCall (ω : Type) where
  before : ω
  buffer : Buffer
  context : UInt32

namespace DirectoryCall

section Replies

variable (host : Host ω) (directory : RawHandle) (x : DirectoryCall ω)

def request : Request :=
  .queryDirectory directory ⟨x.buffer.capacity⟩ (sizeArgument x.buffer.capacity) false false
    x.context

def reply : DirectoryReply := (host.perform (x.request directory) x.before).1

def after : ω := (host.perform (x.request directory) x.before).2

def exchange : Exchange := ⟨x.request directory, x.reply host directory⟩

def answer : Answer :=
  ⟨.ntStatus (x.reply host directory).status, (x.reply host directory).returned.toNat⟩

def left : Buffer := x.buffer.clear.overlay (x.reply host directory).written

/-- The entries in the slots that it left, if it succeeded. -/
def delivered : List DirectoryEntry :=
  match (x.answer host directory).code.signal with
  | .success | .moreEntries =>
    DirectoryEntry.readAll (host.memory (x.after host directory)) (x.left host directory)
  | .noMoreEntries | .insufficientBuffer | .failure => []

end Replies

section Steps

variable (b : Broker ω) (directory : RawHandle) (x y : DirectoryCall ω)

/-- The buffer that a call hands on to the next: it was too small and was grown, or it holds a batch
that is not the last. -/
inductive HandsOn : Buffer → Prop where
  | grown {c : Buffer} : (x.answer b.host directory).code.signal = .insufficientBuffer →
      (b.policy.grow b.allocator (x.answer b.host directory) (x.left b.host directory)).result =
        .ok c → HandsOn c
  | batch {c : Buffer} : (x.answer b.host directory).code.signal = .moreEntries →
      (x.left b.host directory).setLength (x.answer b.host directory).size = .ok c → HandsOn c

/-- The next call meets the host as this one left it, and is told the context that it left. -/
structure LeadsTo : Prop where
  before_eq : y.before = x.after b.host directory
  context_eq : y.context = (x.reply b.host directory).context
  hands_on : x.HandsOn b directory y.buffer

/-- The call ends a listing that succeeds: there was nothing more, or it brought the last
entries. -/
inductive Ends : Prop where
  | exhausted : (x.answer b.host directory).code.signal = .noMoreEntries → Ends
  | complete : (x.answer b.host directory).code.signal = .success →
      (x.answer b.host directory).size ≤ (x.left b.host directory).capacity → Ends

end Steps

end DirectoryCall

inductive DirectoryCalls (b : Broker ω) (directory : RawHandle) :
    DirectoryCall ω → List (DirectoryCall ω) → Prop where
  | last (x : DirectoryCall ω) : x.Ends b directory → DirectoryCalls b directory x [x]
  | next (x y : DirectoryCall ω) {rest : List (DirectoryCall ω)} : x.LeadsTo b directory y →
      DirectoryCalls b directory y rest → DirectoryCalls b directory x (x :: rest)

/-- The calls of a listing that succeeds, the first of them with a leased buffer and the context
zero. -/
def Broker.Enumerates (b : Broker ω) (directory : RawHandle) (s : Session ω)
    (calls : List (DirectoryCall ω)) : Prop :=
  ∃ buffer rest, s.pool.acquire b.allocator directoryBytes = (.ok buffer, rest) ∧
    DirectoryCalls b directory ⟨s.state, buffer, 0⟩ calls

namespace DirectoryCall

variable {b : Broker ω} {directory : RawHandle} {x y : DirectoryCall ω}
  {items : List DirectoryEntry}

def used (x : DirectoryCall ω) : InUse (ω × UInt32) := ⟨x.buffer, (x.before, x.context)⟩

def ofUsed (u : InUse (ω × UInt32)) : DirectoryCall ω := ⟨u.state.1, u.buffer, u.state.2⟩

theorem directoryCall_apply (b : Broker ω) (directory : RawHandle) (u : InUse (ω × UInt32)) :
    b.directoryCall directory u =
      ⟨some ((ofUsed u).answer b.host directory),
        ⟨u.buffer.overlay ((ofUsed u).reply b.host directory).written,
          ((ofUsed u).after b.host directory, ((ofUsed u).reply b.host directory).context)⟩,
        []⟩ := rfl

theorem directoryCall_attempt (b : Broker ω) (directory : RawHandle) (x : DirectoryCall ω) :
    (b.directoryCall directory).attempt x.used =
      ⟨x.used.clear, some (x.answer b.host directory), ⟨x.left b.host directory,
        (x.after b.host directory, (x.reply b.host directory).context)⟩, []⟩ := rfl

theorem directoryCall_notedBy (b : Broker ω) (directory : RawHandle) :
    (b.directoryCall directory).NotedBy (fun x => (ofUsed x.found).exchange b.host directory)
      (fun calls s => ((s.1, calls), s.2)) (b.observed.directoryCall directory) := by
  intro u calls
  have hreply : (ofUsed (u.clear.mapState fun s => ((s.1, calls), s.2))).reply b.observed.host
      directory = (ofUsed u.clear).reply b.host directory := rfl
  rw [directoryCall_apply, directoryCall_apply, answer, answer, hreply]
  simp only [Effect.onState, InUse.mapState]
  rfl

theorem decodeEntries_besides (b : Broker ω) (calls : List Exchange) :
    b.decodeEntries.Besides (fun s => ((s.1, calls), s.2)) b.observed.decodeEntries :=
  fun _ _ _ => rfl

theorem decodeEntries_setLength {n : Nat} {c d : Buffer} (hc : c.setLength n = .ok d)
    (s : ω × UInt32) : b.decodeEntries d n s =
      ⟨.returned (DirectoryEntry.readAll (b.host.memory s.1) c), s, []⟩ := by
  have hset := Buffer.setLength_setsLength n c
  rw [hc] at hset
  have hread : DirectoryEntry.readAll (b.host.memory s.1) d =
      DirectoryEntry.readAll (b.host.memory s.1) c := by
    simp only [DirectoryEntry.readAll, Buffer.capacity, hset.2.2]
  rw [← hread]
  rfl

theorem delivered_of_batch
    (hs : (x.answer b.host directory).code.signal = .success ∨
      (x.answer b.host directory).code.signal = .moreEntries) :
    x.delivered b.host directory =
      DirectoryEntry.readAll (b.host.memory (x.after b.host directory))
        (x.left b.host directory) := by
  rcases hs with hs | hs <;> rw [delivered, hs]

theorem LeadsTo.continues (h : x.LeadsTo b directory y) (items : List DirectoryEntry) :
    ∃ round, Session.Continues b.policy b.allocator b.decodeEntries items
        ((b.directoryCall directory).attempt x.used) round
        ⟨items ++ x.delivered b.host directory, y.used⟩ := by
  have hused : y.used =
      ⟨y.buffer, (x.after b.host directory, (x.reply b.host directory).context)⟩ := by
    rw [used, h.before_eq, h.context_eq]
  rw [directoryCall_attempt, hused]
  cases h.hands_on with
  | grown hs hg =>
    have hnone : x.delivered b.host directory = [] := by rw [delivered, hs]
    rw [hnone, List.append_nil]
    exact ⟨_, .grown rfl hs (by simpa only using hg)⟩
  | batch hs hc =>
    have hentries := decodeEntries_setLength (b := b) hc
      (x.after b.host directory, (x.reply b.host directory).context)
    rw [delivered_of_batch (.inr hs)]
    exact ⟨_, .more rfl hs (by simpa only using hc) (by simpa only using hentries)⟩

theorem exists_leadsTo_of_continues {round : Round (ω × UInt32) DirectoryEntry}
    {m : Session.Reading (ω × UInt32) DirectoryEntry}
    (h : Session.Continues b.policy b.allocator b.decodeEntries items
      ((b.directoryCall directory).attempt x.used) round m) :
    ∃ y, x.LeadsTo b directory y ∧ m = ⟨items ++ x.delivered b.host directory, y.used⟩ := by
  rw [directoryCall_attempt] at h
  refine ⟨ofUsed m.used, ?_⟩
  cases h with
  | grown ha hs hg =>
    cases ha
    dsimp only at hg
    have hnone : x.delivered b.host directory = [] := by rw [delivered, hs]
    rw [hnone, List.append_nil]
    exact ⟨⟨rfl, rfl, .grown hs hg⟩, rfl⟩
  | more ha hs hc hd =>
    cases ha
    dsimp only at hc hd
    rw [decodeEntries_setLength hc] at hd
    cases hd
    rw [delivered_of_batch (.inr hs)]
    exact ⟨⟨rfl, rfl, .batch hs hc⟩, rfl⟩

theorem Ends.concludes (h : x.Ends b directory) (items : List DirectoryEntry) :
    ∃ last v, Session.Concludes b.policy b.allocator b.decodeEntries items
      ((b.directoryCall directory).attempt x.used) last
      (.returned (items ++ x.delivered b.host directory)) v := by
  rw [directoryCall_attempt]
  cases h with
  | exhausted hs =>
    have hnone : x.delivered b.host directory = [] := by rw [delivered, hs]
    rw [hnone, List.append_nil]
    exact ⟨_, _, .exhausted rfl hs⟩
  | complete hs hfits =>
    obtain ⟨c, hc, -⟩ := Buffer.setLength_of_le hfits
    have hentries := decodeEntries_setLength (b := b) hc
      (x.after b.host directory, (x.reply b.host directory).context)
    rw [delivered_of_batch (.inl hs)]
    exact ⟨_, _, .complete rfl hs (by simpa only using hc) (by simpa only using hentries)⟩

theorem ends_of_concludes {last : Round (ω × UInt32) DirectoryEntry}
    {all : List DirectoryEntry} {v : InUse (ω × UInt32)}
    (h : Session.Concludes b.policy b.allocator b.decodeEntries items
      ((b.directoryCall directory).attempt x.used) last (.returned all) v) :
    x.Ends b directory := by
  rw [directoryCall_attempt] at h
  cases h with
  | exhausted ha hs =>
    cases ha
    exact .exhausted hs
  | complete ha hs hc hd =>
    cases ha
    dsimp only at hc
    have hfits := Buffer.setLength_setsLength (x.answer b.host directory).size
      (x.left b.host directory)
    rw [hc] at hfits
    exact .complete hs hfits.1

end DirectoryCall

namespace Broker

open DirectoryCall

variable {b : Broker ω} {directory : RawHandle} {x : DirectoryCall ω}
  {calls : List (DirectoryCall ω)} {s : Session ω}

/-- The calls of a listing are its rounds. -/
theorem rounds_of_directoryCalls (h : DirectoryCalls b directory x calls)
    (items : List DirectoryEntry) :
    ∃ rounds r last v,
      Session.Rounds b.policy b.allocator (b.directoryCall directory) b.decodeEntries
        ⟨items, x.used⟩ rounds r ∧
      Session.Concludes b.policy b.allocator b.decodeEntries r.items
        ((b.directoryCall directory).attempt r.used) last
        (.returned (items ++ calls.flatMap (delivered b.host directory))) v ∧
      (rounds ++ [last]).map (fun y => (ofUsed y.attempt.found).exchange b.host directory) =
        calls.map (exchange b.host directory) := by
  induction h generalizing items with
  | last x hends =>
    obtain ⟨last, v, hlast⟩ := hends.concludes items
    refine ⟨[], _, last, v, .refl _, ?_, ?_⟩
    · rw [List.flatMap_singleton]
      exact hlast
    · rw [List.nil_append, List.map_singleton, List.map_singleton, hlast.attempt_eq]
      rfl
  | next x y hleads _ ih =>
    obtain ⟨round, hround⟩ := hleads.continues items
    obtain ⟨rounds, r, last, v, hrounds, hlast, hcalls⟩ :=
      ih (items ++ x.delivered b.host directory)
    refine ⟨round :: rounds, r, last, v, .head hround hrounds, ?_, ?_⟩
    · rw [List.flatMap_cons, ← List.append_assoc]
      exact hlast
    · rw [List.cons_append, List.map_cons, List.map_cons, hcalls, hround.attempt_eq]
      rfl

theorem exists_directoryCalls {r m : Session.Reading (ω × UInt32) DirectoryEntry}
    {rounds : List (Round (ω × UInt32) DirectoryEntry)}
    {last : Round (ω × UInt32) DirectoryEntry} {all : List DirectoryEntry}
    {v : InUse (ω × UInt32)}
    (h : Session.Rounds b.policy b.allocator (b.directoryCall directory) b.decodeEntries
      r rounds m)
    (hlast : Session.Concludes b.policy b.allocator b.decodeEntries m.items
      ((b.directoryCall directory).attempt m.used) last (.returned all) v) :
    ∃ calls, DirectoryCalls b directory (ofUsed r.used) calls := by
  induction h with
  | refl r => exact ⟨_, .last _ (ends_of_concludes (x := ofUsed r.used) hlast)⟩
  | @head r m r' round rounds hround _ ih =>
    obtain ⟨y, hleads, rfl⟩ := exists_leadsTo_of_continues (x := ofUsed r.used) hround
    obtain ⟨calls, hcalls⟩ := ih hlast
    exact ⟨_, .next _ y hleads hcalls⟩

theorem directoryEntries_eq {h : Handle ω} (hborrow : h.borrow = .ok directory) (s : Session ω) :
    b.directoryEntries h s =
      (Session.enumerate b.policy b.allocator directoryBytes (b.directoryCall directory)
        b.decodeEntries ⟨s.pool, (s.state, 0)⟩).map fun e =>
          ⟨e.value, ⟨e.state.pool, e.state.state.1⟩, e.log⟩ := by
  rw [directoryEntries, borrowing, hborrow]
  simp only [Session.withNote]
  cases Session.enumerate b.policy b.allocator directoryBytes (b.directoryCall directory)
    b.decodeEntries ⟨s.pool, (s.state, 0)⟩ <;> rfl

/-- A run that returned the listing of some calls, and made these calls and no others. -/
structure Lists (b : Broker ω) (directory : RawHandle) (s : Session ω)
    (calls : List (DirectoryCall ω))
    (e : Effect (Session ω) (Outcome (List DirectoryEntry))) : Prop where
  enumerates : b.Enumerates directory s calls
  value_eq : e.value = .returned (calls.flatMap (delivered b.host directory))
  observed_eq : ∀ (watched : Handle (ω × List Exchange)) (asked : List Exchange),
    watched.borrow = .ok directory →
    b.observed.directoryEntries watched (s.mapState (·, asked)) =
      some (e.onState (Session.mapState
        (·, (calls.map (exchange b.host directory)).reverse ++ asked)))

theorem Enumerates.exists_lists (hcalls : b.Enumerates directory s calls) {h : Handle ω}
    (hborrow : h.borrow = .ok directory) :
    ∃ e, b.directoryEntries h s = some e ∧ b.Lists directory s calls e := by
  obtain ⟨buffer, rest, hlease, hmade⟩ := hcalls
  obtain ⟨rounds, r, last, v, hrounds, hlast, hexchanges⟩ := rounds_of_directoryCalls hmade []
  have hleased : (Session.mk s.pool (s.state, (0 : UInt32))).pool.acquire b.allocator
      directoryBytes = (.ok buffer, rest) := hlease
  have hrun := Session.enumerate_of_rounds hleased hrounds hlast
  have hobserved := Session.enumerate_noted hleased (directoryCall_notedBy b directory)
    (decodeEntries_besides b) hrounds hlast
  rw [hrun, hexchanges] at hobserved
  have hentries := directoryEntries_eq (b := b) hborrow s
  rw [hrun] at hentries
  refine ⟨_, hentries, ⟨buffer, rest, hlease, hmade⟩, rfl, ?_⟩
  intro watched asked hwatched
  rw [directoryEntries_eq hwatched]
  exact congrArg (Option.map _) (hobserved asked)

theorem exists_enumerates {h : Handle ω} {items : List DirectoryEntry}
    {e : Effect (Session ω) (Outcome (List DirectoryEntry))}
    (hborrow : h.borrow = .ok directory) (he : b.directoryEntries h s = some e)
    (hvalue : e.value = .returned items) : ∃ calls, b.Enumerates directory s calls := by
  rw [directoryEntries_eq hborrow] at he
  obtain ⟨run, hrun, rfl⟩ := Option.map_eq_some_iff.mp he
  cases hlease : s.pool.acquire b.allocator directoryBytes with
  | mk leased rest =>
    cases leased with
    | error f =>
      have hrefused : (Session.mk s.pool (s.state, (0 : UInt32))).pool.acquire b.allocator
          directoryBytes = (.error f, rest) := hlease
      rw [Session.enumerate, Session.withLease_of_refused hrefused] at hrun
      cases hrun
      cases hvalue
    | ok buffer =>
      have hleased : (Session.mk s.pool (s.state, (0 : UInt32))).pool.acquire b.allocator
          directoryBytes = (.ok buffer, rest) := hlease
      have hloop := hrun
      rw [Session.enumerate_of_acquire hleased] at hloop
      obtain ⟨ended, hended, -⟩ := Option.map_eq_some_iff.mp hloop
      obtain ⟨rounds, m, last, outcome, v, hrounds, hlast⟩ := Session.ends_of_loop hended
      rw [Session.enumerate_of_rounds hleased hrounds hlast] at hrun
      cases hrun
      cases hvalue
      obtain ⟨calls, hcalls⟩ := exists_directoryCalls hrounds hlast
      exact ⟨calls, buffer, rest, hlease, hcalls⟩

/-- What is read from a buffer are the slots before its end, as their headers point at their texts,
and nothing behind the end changes that. A listing returns the entries so read from what each of
its successful calls left, in the order of the calls, and it returns one whenever the calls come to
an end of it; each call is told the context that the one before left, also after one that found
its buffer too small, and these are all the calls that are made. -/
theorem directoryEntries_lists_delivered (b : Broker ω) {h : Handle ω}
    (hborrow : h.borrow = .ok directory) (s : Session ω) :
    (∀ (m : Memory) (c : Buffer) (k : Nat), c.HoldsSlots k →
      DirectoryEntry.readAll m c = ((List.range k).map fun i => (Slot.inBytes c.bytes i).entry m) ∧
      ∀ d, c.SameSlots d k → DirectoryEntry.readAll m d = DirectoryEntry.readAll m c) ∧
    (∀ e items, b.directoryEntries h s = some e → e.value = .returned items →
      ∃ calls, b.Lists directory s calls e) ∧
    ∀ calls, b.Enumerates directory s calls →
      ∃ e, b.directoryEntries h s = some e ∧ b.Lists directory s calls e := by
  refine ⟨?_, ?_, ?_⟩
  · intro m c k hslots
    exact ⟨DirectoryEntry.readAll_of_holdsSlots hslots,
      fun d hsame => DirectoryEntry.readAll_of_sameSlots hslots hsame⟩
  · intro e items he hvalue
    obtain ⟨calls, hcalls⟩ := exists_enumerates hborrow he hvalue
    obtain ⟨e', he', hlists⟩ := hcalls.exists_lists hborrow
    cases he.symm.trans he'
    exact ⟨calls, hlists⟩
  · intro calls hcalls
    exact hcalls.exists_lists hborrow

end Broker

/-- A slot with the texts at 4096 and 8192, of one unit each, and the slot that ends a directory. -/
def Host.browsedSlots : ByteArray :=
  ⟨#[2, 0, 2, 0, 0, 0, 0, 0, 0, 16, 0, 0, 0, 0, 0, 0,
    2, 0, 2, 0, 0, 0, 0, 0, 0, 32, 0, 0, 0, 0, 0, 0] ++ Array.replicate 32 0⟩

def Host.browsedBuffer : Buffer := ⟨browsedSlots, 0, rfl, by decide, by decide⟩

/-- A buffer of these slots with others behind their end, as an earlier batch leaves them. -/
def Host.staleBuffer : Buffer :=
  ⟨browsedSlots ++ browsedSlots, 0, by decide +kernel, by decide +kernel, by decide +kernel⟩

/-- A host that wants a larger buffer first, then has a batch of one entry, then no more. -/
def Host.browsing : Host Nat where
  perform := fun r w =>
    match r with
    | .queryDirectory _ _ _ _ _ context =>
      match w with
      | 0 => (⟨NtStatus.bufferTooSmall, context + 7, 8192, .empty⟩, 1)
      | 1 => (⟨NtStatus.moreEntries, context + 1, 64, browsedSlots⟩, 2)
      | w => (⟨NtStatus.noMoreEntries, context, 0, .empty⟩, w)
    | r => ((HostScript.perform r {}).1, w)
  lastError := fun _ => 0
  processHeap := 0
  memory := fun _ a => if a = 4096 then [0x41, 0] else [0x42, 0]

theorem Host.entry_browsedSlots :
    ((List.range 1).map fun i => (Slot.inBytes browsedSlots i).entry (browsing.memory 2)) =
      [⟨"A", "B"⟩] := by decide

theorem Host.browsing_enumerates :
    let b : Broker Nat := ⟨browsing, ⟨fun _ => true⟩, {}⟩
    ∃ calls, b.Enumerates 5 ⟨⟨{}, []⟩, 0⟩ calls ∧
      calls.map DirectoryCall.context = [0, 7, 8] ∧
      calls.flatMap (DirectoryCall.delivered b.host 5) = [⟨"A", "B"⟩] := by
  intro b
  have hserves : b.allocator.Serves Broker.directoryBytes :=
    Allocator.serves_of_provides (by decide)
  obtain ⟨buffer, rest, hlease⟩ := Pool.exists_acquire hserves ⟨{}, []⟩
  have hnew : Buffer.empty.reserve b.allocator Broker.directoryBytes = .ok buffer := by
    rw [Pool.acquire_of_nil rfl] at hlease
    exact (Prod.mk.inj hlease).1
  have hbuffer : buffer.capacity = 4096 := by
    rcases Buffer.capacity_of_reserve hnew with hcapacity | ⟨hfits, -⟩
    · exact hcapacity
    · exact absurd hfits (by decide)
  let short : DirectoryCall Nat := ⟨0, buffer, 0⟩
  have htarget : b.policy.target? (short.left b.host 5).capacity 8192 = some 8192 := by
    rw [DirectoryCall.left, Buffer.capacity_overlay, Buffer.capacity_clear, hbuffer]
    decide
  obtain ⟨grown, hgrown⟩ := SizingPolicy.exists_grow (a := short.answer b.host 5)
    (Allocator.serves_of_provides (by decide)) htarget
  let batch : DirectoryCall Nat := ⟨1, grown, 7⟩
  have hgrew : 8192 ≤ grown.capacity := SizingPolicy.size_le_of_grow hgrown
  have hroom : 64 ≤ grown.clear.capacity := Nat.le_trans (by decide) hgrew
  have hfits : (batch.answer b.host 5).size ≤ (batch.left b.host 5).capacity := by
    rw [DirectoryCall.left, Buffer.capacity_overlay]
    exact hroom
  obtain ⟨kept, hkept, -⟩ := Buffer.setLength_of_le hfits
  let ended : DirectoryCall Nat := ⟨2, kept, 8⟩
  have hwritten : browsedSlots.size ≤ grown.clear.capacity := hroom
  have hentries : batch.delivered b.host 5 = [⟨"A", "B"⟩] :=
    (DirectoryEntry.readAll_overlay hwritten (by decide) (by decide) (by decide)).trans
      entry_browsedSlots
  refine ⟨[short, batch, ended], ⟨buffer, rest, hlease, ?_⟩, rfl, ?_⟩
  · exact .next short batch ⟨rfl, rfl, .grown rfl hgrown⟩
      (.next batch ended ⟨rfl, rfl, .batch rfl hkept⟩ (.last ended (.exhausted rfl)))
  · exact congrArg (· ++ []) hentries

theorem Broker.directoryEntries_lists_delivered_browsing :
    let b : Broker Nat := ⟨Host.browsing, ⟨fun _ => true⟩, {}⟩
    let h : Handle Nat := b.host.own .ntObject 5
    h.borrow = .ok 5 ∧ Host.browsedBuffer.HoldsSlots 1 ∧
      Host.browsedBuffer.SameSlots Host.staleBuffer 1 ∧
      DirectoryEntry.readAll (b.host.memory 2) Host.staleBuffer = [⟨"A", "B"⟩] ∧
      ∃ e calls, b.directoryEntries h ⟨⟨{}, []⟩, 0⟩ = some e ∧
        b.Lists 5 ⟨⟨{}, []⟩, 0⟩ calls e ∧ calls.map DirectoryCall.context = [0, 7, 8] ∧
        e.value = .returned [⟨"A", "B"⟩] := by
  intro b h
  have hborrow : h.borrow = .ok 5 := rfl
  have hslots : Host.browsedBuffer.HoldsSlots 1 := ⟨by decide, by decide, by decide⟩
  have hsame : Host.browsedBuffer.SameSlots Host.staleBuffer 1 := ⟨by decide, by decide⟩
  obtain ⟨hread, -, hlists⟩ := directoryEntries_lists_delivered b hborrow ⟨⟨{}, []⟩, 0⟩
  obtain ⟨hentries, hstale⟩ := hread (b.host.memory 2) Host.browsedBuffer 1 hslots
  obtain ⟨calls, hcalls, hcontexts, hdelivered⟩ := Host.browsing_enumerates
  obtain ⟨e, he, hlisted⟩ := hlists calls hcalls
  refine ⟨hborrow, hslots, hsame, ?_, e, calls, he, hlisted, hcontexts, ?_⟩
  · rw [hstale Host.staleBuffer hsame, hentries]
    exact Host.entry_browsedSlots
  · rw [hlisted.value_eq, hdelivered]

end NativeResource

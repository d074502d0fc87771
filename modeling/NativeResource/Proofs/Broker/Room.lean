import NativeResource.Proofs.Broker.Conduct
import NativeResource.Proofs.Broker.NativeFailure
import NativeResource.Proofs.Sizing.Enumeration
/-!
What a native call is told about the room for its answer. The sizes are passed in bytes or in
units, as 32-bit or 16-bit numbers, and each call is told the whole capacity of the buffer that it
may write to, or the most that its argument can tell. So no call is ever told of more room than
there is, and no size that does not fit the buffer is decoded.
-/
namespace NativeResource

variable {σ ω α : Type}

/-- Where a call may write, and how many bytes it is told there are; the most that it can be told,
and the size of the units it is told them in. -/
structure Room where
  into : Destination
  told : Nat
  most : Nat
  unit : Nat

def Request.room? : Request → Option Room
  | finalPathName _ into chars _ | enumerateKey _ _ into chars =>
    some ⟨into, chars.toNat * 2, 0xFFFFFFFF * 2, 2⟩
  | queryValue _ _ into size => some ⟨into, size.toNat, 0xFFFFFFFF, 1⟩
  | tokenInformation _ _ into length | queryDirectory _ into length .. |
    queryObject _ _ into length => some ⟨into, length.toNat, 0xFFFFFFFF, 1⟩
  | querySymbolicLink _ into _ maximumLength => some ⟨into, maximumLength.toNat, 65534, 2⟩
  | _ => none

/-- A call is told the capacity, or as much of it as it can be told. -/
structure Room.Truthful (room : Room) : Prop where
  le : room.told ≤ room.into.capacity
  exact : room.into.capacity ≤ room.most → room.told = room.into.capacity
  cut : room.most < room.into.capacity → room.told = room.most
  whole : room.unit ∣ room.told

theorem Room.truthful_of_min {room : Room} (htold : room.told = min room.into.capacity room.most)
    (hwhole : room.unit ∣ room.told) : room.Truthful where
  le := by omega
  exact := by omega
  cut := by omega
  whole := hwhole

theorem Broker.toNat_linkRoom (capacity : Nat) :
    (linkRoom capacity).toNat = min capacity 0xFFFF / 2 * 2 := by
  rw [linkRoom, UInt16.toNat_ofNat']
  omega

namespace Buffer

theorem truthful_bytes (b : Buffer) :
    (⟨b.destination, (sizeArgument b.capacity).toNat, 0xFFFFFFFF, 1⟩ : Room).Truthful :=
  Room.truthful_of_min (toNat_sizeArgument b.capacity) (Nat.one_dvd _)

theorem two_dvd_capacity (b : Buffer) : 2 ∣ b.capacity := by
  have := b.whole_words
  rw [capacity]
  omega

theorem truthful_units (b : Buffer) :
    (⟨b.destination, (sizeArgument b.charCapacity).toNat * 2, 0xFFFFFFFF * 2, 2⟩ :
      Room).Truthful := by
  refine Room.truthful_of_min ?_ (Nat.dvd_mul_left 2 _)
  have := b.two_dvd_capacity
  simp only [toNat_sizeArgument, charCapacity, unitBytes, destination]
  omega

theorem truthful_linkRoom (b : Buffer) :
    (⟨b.destination, (Broker.linkRoom b.capacity).toNat, 65534, 2⟩ : Room).Truthful := by
  have := b.two_dvd_capacity
  refine Room.truthful_of_min ?_ ?_
  · simp only [Broker.toNat_linkRoom, destination]
    omega
  · simp only [Broker.toNat_linkRoom]
    exact Nat.dvd_mul_left 2 _

end Buffer

/-- Between the two states one call was made. It could write to the buffer in use and was told the
truth about its room, and the buffer is as large afterwards. -/
structure AskedWithin (seen : σ → List Exchange) (u v : InUse σ) : Prop where
  asked : ∃ x room, seen v.state = x :: seen u.state ∧ x.request.room? = some room ∧
    room.into = u.buffer.destination ∧ room.Truthful
  kept : v.buffer.capacity = u.buffer.capacity

/-- A size may be decoded in a state if it fits the buffer, and the latest call was the one that
could write to that buffer. -/
structure Decodable (seen : σ → List Exchange) (b : Buffer) (n : Nat) (s : σ) : Prop where
  asked : ∃ x rest room, seen s = x :: rest ∧ x.request.room? = some room ∧
    room.into = b.destination
  fits : n ≤ b.capacity
  length : b.length = n

def Call.TellsRoom (seen : σ → List Exchange) (call : Call σ) : Prop :=
  ∀ u, AskedWithin seen u (call u).state

/-- The calls that are told the truth about their room, if they fill a buffer. -/
def Request.ToldTruth (r : Request) : Prop := ∀ room, r.room? = some room → room.Truthful

theorem Call.TellsRoom.asks {seen : σ → List Exchange} {call : Call σ} (h : call.TellsRoom seen) :
    call.Asks (fun u => seen u.state) Request.ToldTruth := by
  intro u
  obtain ⟨x, room, hseen, hroom, -, htruth⟩ := (h u).asked
  refine ⟨[x], hseen, ?_⟩
  intro y hy
  cases List.mem_singleton.mp hy
  intro other hother
  rw [hroom] at hother
  cases hother
  exact htruth

theorem Call.tellsRoom_filling {seen : σ → List Exchange} {fill : Buffer → Action σ Filling}
    (h : ∀ b s, ∃ x room, seen (fill b s).state = x :: seen s ∧ x.request.room? = some room ∧
      room.into = b.destination ∧ room.Truthful) : (Call.filling fill).TellsRoom seen := by
  intro u
  refine ⟨h u.buffer u.state, ?_⟩
  simp only [Call.filling, Buffer.capacity_overlay]

namespace Broker

variable (b : Broker ω) (raw : RawHandle)

theorem tellsRoom_pathCall : (b.observed.pathCall raw).toCall.TellsRoom Prod.snd := by
  intro u
  have hleft : ((b.observed.pathCall raw).toCall u).state = (b.observed.pathCall raw u).state := rfl
  rw [hleft, b.observed.pathCall_apply raw rfl]
  refine ⟨⟨_, _, rfl, rfl, rfl, u.buffer.truthful_units⟩, ?_⟩
  simp only [Buffer.capacity_overlay]

theorem tellsRoom_valueCall (name : List UInt16) :
    (b.observed.valueCall raw name).TellsRoom (besideNote Prod.snd) := by
  apply Call.tellsRoom_filling
  intro buffer w
  exact ⟨_, _, rfl, rfl, rfl, buffer.truthful_bytes⟩

theorem tellsRoom_keyNameCall (index : UInt32) :
    (b.observed.keyNameCall raw index).TellsRoom Prod.snd := by
  apply Call.tellsRoom_filling
  intro buffer w
  exact ⟨_, _, rfl, rfl, rfl, buffer.truthful_units⟩

theorem tellsRoom_directoryCall :
    (b.observed.directoryCall raw).TellsRoom (besideNote Prod.snd) := by
  apply Call.tellsRoom_filling
  intro buffer w
  exact ⟨_, _, rfl, rfl, rfl, buffer.truthful_bytes⟩

theorem tellsRoom_linkCall : (b.observed.linkCall raw).TellsRoom Prod.snd := by
  apply Call.tellsRoom_filling
  intro buffer w
  exact ⟨_, _, rfl, rfl, rfl, buffer.truthful_linkRoom⟩

theorem tellsRoom_objectCall (informationClass : UInt32) :
    (b.observed.objectCall informationClass raw).TellsRoom Prod.snd := by
  apply Call.tellsRoom_filling
  intro buffer w
  exact ⟨_, _, rfl, rfl, rfl, buffer.truthful_bytes⟩

theorem tellsRoom_userCall : (b.observed.userCall raw).TellsRoom Prod.snd := by
  intro u
  rw [b.observed.userCall_apply raw rfl]
  refine ⟨⟨_, _, rfl, rfl, rfl, u.buffer.truthful_bytes⟩, ?_⟩
  simp only [Buffer.capacity_overlay]

end Broker

theorem Query.allCalls_tellRoom (b : Broker ω) (raw : RawHandle) (q : Query) :
    q.AllCalls Call.TellsRoom b raw := by
  cases q with
  | finalPath => exact b.tellsRoom_pathCall raw
  | value name => exact b.tellsRoom_valueCall raw _
  | subkeyNames => exact b.tellsRoom_keyNameCall raw
  | directoryEntries => exact b.tellsRoom_directoryCall raw
  | linkTarget => exact b.tellsRoom_linkCall raw
  | objectName | objectType => exact b.tellsRoom_objectCall raw _
  | tokenUser => exact b.tellsRoom_userCall raw

/-! ### Decoding -/

section Decoding

variable {p : SizingPolicy} {alloc : Allocator} {call : Call σ}

/-- Where a call settled, its buffer has the bytes and its state is the one that some attempt
left. -/
theorem SizingPolicy.exists_left_of_settle {u : InUse σ} {e : Effect (InUse σ) (Outcome Settled)}
    (he : p.settle alloc call u = some e) :
    ∃ v, e.state.buffer.bytes = (call v).state.buffer.bytes ∧
      e.state.state = (call v).state.state := by
  obtain ⟨earlier, last, hcourse, hyields⟩ := Course.settle_eq_some_iff.mp he
  obtain ⟨v, rfl⟩ := hcourse.exists_attempt last
    (List.mem_append_right earlier List.mem_cons_self)
  refine ⟨v.clear, hcourse.bytes_settle he, ?_⟩
  rw [hyields.state]
  exact p.state_conclude alloc (call.attempt v)

def Call.DecodedAlike (call : Call σ) (decode decode' : Decoder σ α) : Prop :=
  ∀ v b, b.bytes = (call v).state.buffer.bytes →
    decode b b.length (call v).state.state = decode' b b.length (call v).state.state

namespace Session

theorem settle_bind_congr {f g : Outcome Settled → Action (InUse σ) α}
    (h : ∀ v u settled, u.buffer.bytes = (call v).state.buffer.bytes →
      u.state = (call v).state.state → f settled u = g settled u) :
    (p.settle alloc call >>= fun settled => Run.ofAction (f settled)) =
      (p.settle alloc call >>= fun settled => Run.ofAction (g settled)) := by
  funext u
  refine Option.bind_congr fun e he => ?_
  obtain ⟨v, hbytes, hstate⟩ := SizingPolicy.exists_left_of_settle he
  simp only [Run.ofAction, h v e.state e.value hbytes hstate]

theorem decodeBuffer_congr {decode decode' : Decoder σ α} (h : call.DecodedAlike decode decode')
    {u v : InUse σ} (hbytes : u.buffer.bytes = (call v).state.buffer.bytes)
    (hstate : u.state = (call v).state.state) : decodeBuffer decode u = decodeBuffer decode' u := by
  have hsame := h v u.buffer hbytes
  rw [← hstate] at hsame
  simp only [decodeBuffer, hsame]

theorem single_congr {decode decode' : Decoder σ α} (h : call.DecodedAlike decode decode')
    (n : Nat) : single p alloc n call decode = single p alloc n call decode' := by
  refine congrArg (withLease alloc n Outcome.failed) ?_
  refine settle_bind_congr fun v u settled hbytes hstate => ?_
  cases settled with
  | returned s =>
    cases s with
    | complete => exact decodeBuffer_congr h hbytes hstate
    | more | exhausted => rfl
  | failed | panicked => rfl

theorem enumerate_congr {decode decode' : Decoder σ (List α)} (h : call.DecodedAlike decode decode')
    (n : Nat) : enumerate p alloc n call decode = enumerate p alloc n call decode' := by
  have hbatch : settleBatch p alloc call decode = settleBatch p alloc call decode' := by
    funext items
    refine settle_bind_congr fun v u settled hbytes hstate => ?_
    cases settled with
    | returned s =>
      cases s with
      | complete | more =>
        simp only [decodeBatch, Action.bind_apply, decodeBuffer_congr h hbytes hstate]
      | exhausted => rfl
    | failed | panicked => rfl
  have hread : readBatch p alloc call decode = readBatch p alloc call decode' := by
    funext r
    rw [readBatch, readBatch, hbatch]
  refine congrArg (withLease alloc n Outcome.failed) ?_
  funext u
  rw [settleBatches, settleBatches, hread]

end Session

end Decoding

/-! ### Guards -/

/-- What is done instead of a call that was not told its room, and instead of decoding a size that
may not be decoded. -/
structure Alarm where
  call : ∀ {σ : Type}, Call σ
  decode : ∀ {σ α : Type}, Decoder σ α

open scoped Classical in
/-- The call, if it tells the room of the buffer that it finds. -/
noncomputable def Call.guarded (alarm : Alarm) (seen : σ → List Exchange) (call : Call σ) :
    Call σ := fun u =>
  if AskedWithin seen u (call u).state then call u else alarm.call u

open scoped Classical in
noncomputable def Decoder.guarded (alarm : Alarm) (seen : σ → List Exchange)
    (decode : Decoder σ α) : Decoder σ α := fun b n s =>
  if Decodable seen b n s then decode b n s else alarm.decode b n s

namespace Call.TellsRoom

variable {seen : σ → List Exchange} {call : Call σ} {alarm : Alarm}

theorem guarded_eq (h : call.TellsRoom seen) : call.guarded alarm seen = call := by
  funext u
  exact if_pos (h u)

theorem decodedAlike (h : call.TellsRoom seen) (decode : Decoder σ α) :
    call.DecodedAlike (decode.guarded alarm seen) decode := by
  intro v b hbytes
  obtain ⟨⟨x, room, hseen, hroom, hinto, -⟩, hkept⟩ := h v
  have hcapacity : b.destination = v.buffer.destination := by
    rw [Buffer.destination, Buffer.destination, ← hkept, Buffer.capacity, hbytes, Buffer.capacity]
  refine if_pos ⟨⟨x, _, room, hseen, hroom, ?_⟩, b.length_le, rfl⟩
  rw [hinto, hcapacity]

end Call.TellsRoom

/-- How the calls of a query are run over a pool, given where the calls of a state are kept. -/
structure Runner where
  single : ∀ {σ α : Type}, (σ → List Exchange) → Nat → Call σ → Decoder σ α →
    Run (Session σ) (Outcome α)
  enumerate : ∀ {σ α : Type}, (σ → List Exchange) → Nat → Call σ → Decoder σ (List α) →
    Run (Session σ) (Outcome (List α))

namespace Runner

def plain (p : SizingPolicy) (alloc : Allocator) : Runner where
  single _ n call decode := Session.single p alloc n call decode
  enumerate _ n call decode := Session.enumerate p alloc n call decode

/-- Every attempt and every decoding is checked before it counts. -/
noncomputable def guarded (alarm : Alarm) (p : SizingPolicy) (alloc : Allocator) : Runner where
  single seen n call decode :=
    Session.single p alloc n (call.guarded alarm seen) (decode.guarded alarm seen)
  enumerate seen n call decode :=
    Session.enumerate p alloc n (call.guarded alarm seen) (decode.guarded alarm seen)

/-- The two run a call alike, whatever is decoded of it. -/
structure Alike (r r' : Runner) {σ : Type} (seen : σ → List Exchange) (call : Call σ) : Prop where
  single : ∀ {α : Type} (n : Nat) (decode : Decoder σ α),
    r.single seen n call decode = r'.single seen n call decode
  enumerate : ∀ {α : Type} (n : Nat) (decode : Decoder σ (List α)),
    r.enumerate seen n call decode = r'.enumerate seen n call decode

theorem guarded_alike {seen : σ → List Exchange} {call : Call σ} (h : call.TellsRoom seen)
    (alarm : Alarm) (p : SizingPolicy) (alloc : Allocator) :
    Alike (guarded alarm p alloc) (plain p alloc) seen call := by
  constructor
  · intro α n decode
    simp only [guarded, plain, h.guarded_eq]
    exact Session.single_congr (h.decodedAlike decode) n
  · intro α n decode
    simp only [guarded, plain, h.guarded_eq]
    exact Session.enumerate_congr (h.decodedAlike decode) n

end Runner

def Broker.subkeyNamesThrough (r : Runner) (b : Broker (ω × List Exchange)) (key : RawHandle) :
    (remaining index : Nat) → List String →
      Run (Session (ω × List Exchange)) (Outcome (List String))
  | 0, _, names => pure (.returned names.reverse)
  | remaining + 1, index, names => do
    match ← r.single Prod.snd keyNameBytes (b.keyNameCall key (UInt32.ofNat index)) decodeText with
    | .returned name => b.subkeyNamesThrough r key remaining (index + 1) (name :: names)
    | .failed f =>
      if f.code = some (.win32 Win32.noMoreItems) then return .returned names.reverse
      else return .failed f
    | .panicked => return .panicked

theorem Broker.subkeyNamesThrough_plain (b : Broker (ω × List Exchange)) (key : RawHandle)
    (remaining index : Nat) (names : List String) :
    b.subkeyNamesThrough (.plain b.policy b.allocator) key remaining index names =
      b.subkeyNamesFrom key remaining index names := by
  induction remaining generalizing index names with
  | zero => rfl
  | succ remaining ih => simp only [subkeyNamesThrough, subkeyNamesFrom, ih]; rfl

theorem Broker.subkeyNamesThrough_congr {r r' : Runner} {b : Broker (ω × List Exchange)}
    {key : RawHandle} (h : ∀ index, r.Alike r' Prod.snd (b.keyNameCall key index))
    (remaining index : Nat) (names : List String) :
    b.subkeyNamesThrough r key remaining index names =
      b.subkeyNamesThrough r' key remaining index names := by
  induction remaining generalizing index names with
  | zero => rfl
  | succ remaining ih => simp only [subkeyNamesThrough, ih, (h _).single]

namespace Query

def through (r : Runner) (b : Broker (ω × List Exchange)) (h : Handle (ω × List Exchange)) :
    (q : Query) → Run (Session (ω × List Exchange)) (Outcome q.Found)
  | finalPath => Broker.borrowing h fun raw =>
    r.single Prod.snd (saturate (Broker.pathChars * Buffer.unitBytes)) (b.pathCall raw).toCall
      Broker.decodeText
  | value name => Broker.borrowing h fun raw => do
    let call := b.valueCall raw (Utf16.encodeTerminated name)
    return Broker.presentValue name (← Session.withNote (0 : UInt32)
      (r.single (besideNote Prod.snd) Broker.valueBytes call Broker.decodeValue))
  | subkeyNames => Broker.borrowing h fun raw => b.subkeyNamesThrough r raw 0x100000000 0 []
  | directoryEntries => Broker.borrowing h fun raw => Session.withNote (0 : UInt32)
    (r.enumerate (besideNote Prod.snd) Broker.directoryBytes (b.directoryCall raw)
      b.decodeEntries)
  | linkTarget => Broker.borrowing h fun raw =>
    r.single Prod.snd Broker.linkTargetBytes (b.linkCall raw) Broker.decodeText
  | objectName => Broker.borrowing h fun raw =>
    r.single Prod.snd Broker.objectNameBytes (b.objectCall Broker.nameInformation raw)
      b.decodeLeadingText
  | objectType => Broker.borrowing h fun raw =>
    r.single Prod.snd Broker.objectTypeBytes (b.objectCall Broker.typeInformation raw)
      b.decodeLeadingText
  | tokenUser => Broker.borrowing h fun raw =>
    r.single Prod.snd Broker.tokenUserBytes (b.userCall raw) b.decodeUser

theorem through_plain (b : Broker (ω × List Exchange)) (h : Handle (ω × List Exchange))
    (q : Query) : q.through (.plain b.policy b.allocator) b h = q.run b h := by
  cases q with
  | subkeyNames =>
    refine congrArg (Broker.borrowing h) ?_
    funext raw
    exact b.subkeyNamesThrough_plain raw _ _ _
  | finalPath | value | directoryEntries | linkTarget | objectName | objectType | tokenUser => rfl

theorem through_congr {r r' : Runner} {b : Broker ω} {h : Handle (ω × List Exchange)} {q : Query}
    (hcalls : ∀ raw, q.AllCalls (fun seen call => r.Alike r' seen call) b raw) :
    q.through r b.observed h = q.through r' b.observed h := by
  cases q with
  | value name =>
    refine congrArg (Broker.borrowing h) (funext fun raw => ?_)
    exact congrArg (fun x : Run _ (Outcome RegistryValue) => do
      return Broker.presentValue name (← Session.withNote (0 : UInt32) x))
        ((hcalls raw).single _ _)
  | subkeyNames =>
    refine congrArg (Broker.borrowing h) (funext fun raw => ?_)
    exact Broker.subkeyNamesThrough_congr (hcalls raw) _ _ _
  | directoryEntries =>
    refine congrArg (Broker.borrowing h) (funext fun raw => ?_)
    exact congrArg (Session.withNote (0 : UInt32)) ((hcalls raw).enumerate _ _)
  | finalPath | linkTarget | objectName | objectType | tokenUser =>
    refine congrArg (Broker.borrowing h) (funext fun raw => ?_)
    exact (hcalls raw).single _ _

theorem AllCalls.mono {F G : ∀ {σ : Type}, (σ → List Exchange) → Call σ → Prop} {b : Broker ω}
    {raw : RawHandle} {q : Query} (h : q.AllCalls F b raw)
    (hFG : ∀ {σ : Type} (seen : σ → List Exchange) (call : Call σ), F seen call → G seen call) :
    q.AllCalls G b raw := by
  cases q with
  | subkeyNames => exact fun index => hFG _ _ (h index)
  | finalPath | value | directoryEntries | linkTarget | objectName | objectType | tokenUser =>
    exact hFG _ _ h

/-- No query tells a native call of more room than there is. Each buffer-filling call is told the
capacity of the buffer that it may write to, or as much of it as its argument can tell; and nothing
else is ever done: whatever was to happen instead of an attempt that does not make one such call,
or instead of decoding a size that does not fit the buffer, does not happen. -/
theorem calls_told_true_room (b : Broker ω) (h : Handle (ω × List Exchange)) (q : Query) :
    (q.run b.observed h).Asks (fun s => s.state.2) Request.ToldTruth ∧
      ∀ alarm, q.through (.guarded alarm b.policy b.allocator) b.observed h =
        q.run b.observed h := by
  have htell := fun raw => q.allCalls_tellRoom b raw
  constructor
  · refine asks_of_allCalls b h ((htell h.raw).mono fun _ _ htells => htells.asks) ?_ ?_
    · exact fun _ _ => nofun
    · exact fun _ _ => nofun
  · intro alarm
    have hsame : q.through (.guarded alarm b.policy b.allocator) b.observed h =
        q.through (.plain b.policy b.allocator) b.observed h :=
      through_congr fun raw => (htell raw).mono fun _ _ htells =>
        Runner.guarded_alike htells alarm b.policy b.allocator
    rw [hsame]
    exact through_plain b.observed h q

end Query

end NativeResource

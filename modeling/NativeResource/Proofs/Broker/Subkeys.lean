import NativeResource.Proofs.Broker.NativeFailure
/-!
Listing the names of a key's subkeys. Each index is asked with more and more room until its name
fits, then the next one is, until the system says that there are no more. A failure of the system
ends the listing at once, with its code.
-/
namespace NativeResource

variable {σ ω α β : Type}

def Host.nameReply (host : Host ω) (key : RawHandle) (index : UInt32) (into : Destination)
    (chars : UInt32) (w : ω) : NameReply :=
  (host.perform (.enumerateKey key index into chars) w).1

/-- A key with these subkeys, whatever was asked before. The answer to an index is its name in
units, if the room that is told takes it and a terminator; that the room is too small if it does
not; and past the last index that there are no more. Indexes and lengths are told in 32 bits, so
there are no more subkeys, and no more units in a name with its terminator, than that. -/
structure Host.ListsSubkeys (host : Host ω) (key : RawHandle) (names : List (List UInt16)) :
    Prop where
  count_lt : names.length < 0x100000000
  length_lt : ∀ name ∈ names, name.length + 1 < 0x100000000
  ended : ∀ index into chars w, names.length ≤ index.toNat →
    (host.nameReply key index into chars w).code = Win32.noMoreItems
  short : ∀ index into chars w name, names[index.toNat]? = some name →
    chars.toNat < name.length + 1 → (host.nameReply key index into chars w).code = Win32.moreData
  held : ∀ index into chars w name, names[index.toNat]? = some name →
    name.length + 1 ≤ chars.toNat →
    (host.nameReply key index into chars w).code = Win32.success ∧
      (host.nameReply key index into chars w).chars.toNat = name.length ∧
      (host.nameReply key index into chars w).written.extract 0 (2 * name.length) =
        Utf16.block name

namespace Broker

def nameRequest (key : RawHandle) (index : UInt32) (capacity : Nat) : Request :=
  .enumerateKey key index ⟨capacity⟩ (sizeArgument (capacity / 2))

variable {b : Broker ω} {key : RawHandle} {index : UInt32} {names : List (List UInt16)}
  {name : List UInt16}

theorem keyNameCall_apply (b : Broker ω) (key : RawHandle) (index : UInt32)
    {u : InUse (ω × List Exchange)} {reply : NameReply}
    (hreply : reply = b.host.nameReply key index u.buffer.destination
      (sizeArgument u.buffer.charCapacity) u.state.1) :
    b.observed.keyNameCall key index u =
      ⟨some ⟨.win32 reply.code, if reply.code = Win32.success then reply.chars.toNat * 2 else 0⟩,
        ⟨u.buffer.overlay reply.written,
          (b.host.observed.perform (nameRequest key index u.buffer.capacity) u.state).2⟩,
        []⟩ := by
  subst hreply
  rfl

theorem neverShrinks_keyNameCall (b : Broker ω) (key : RawHandle) (index : UInt32) :
    (b.observed.keyNameCall key index).NeverShrinks := by
  intro u
  rw [b.keyNameCall_apply key index rfl, Buffer.capacity_overlay]

theorem needs_keyNameCall (h : b.host.ListsSubkeys key names)
    (hname : names[index.toNat]? = some name) :
    (b.observed.keyNameCall key index).Needs (2 * (name.length + 1)) (Utf16.block name) := by
  have hlength := h.length_lt name (List.mem_of_getElem? hname)
  constructor
  · intro u hshort
    have hchars : (sizeArgument u.buffer.charCapacity).toNat < name.length + 1 := by
      rw [toNat_sizeArgument, Buffer.charCapacity, Buffer.unitBytes]
      omega
    have hcode := h.short index u.buffer.destination _ u.state.1 name hname hchars
    rw [b.keyNameCall_apply key index rfl, hcode]
    refine ⟨_, rfl, rfl, Nat.zero_le _, ?_⟩
    simp only [Buffer.capacity_overlay]
  · intro u hfits
    have hchars : name.length + 1 ≤ (sizeArgument u.buffer.charCapacity).toNat := by
      rw [toNat_sizeArgument, Buffer.charCapacity, Buffer.unitBytes]
      omega
    obtain ⟨hcode, hcount, hwritten⟩ :=
      h.held index u.buffer.destination _ u.state.1 name hname hchars
    rw [b.keyNameCall_apply key index rfl, hcode, hcount]
    rw [← Utf16.size_block] at hwritten
    refine ⟨_, rfl, rfl, ?_, ?_⟩
    · rw [if_pos rfl, Utf16.size_block, Nat.mul_comm]
    · dsimp only
      refine Buffer.extract_overlay_of_extract hwritten ?_
      rw [Utf16.size_block]
      omega

theorem keyNameCall_ended (h : b.host.ListsSubkeys key names)
    (hended : names.length ≤ index.toNat) (u : InUse (ω × List Exchange)) :
    (b.observed.keyNameCall key index u).value = some ⟨.win32 Win32.noMoreItems, 0⟩ := by
  rw [b.keyNameCall_apply key index rfl, h.ended index _ _ _ hended]
  rfl

end Broker

def Session.Made (s t : Session (ω × List Exchange)) (made : List Exchange) : Prop :=
  t.state.2 = made.reverse ++ s.state.2

theorem Session.Made.trans {s t u : Session (ω × List Exchange)} {made more : List Exchange}
    (h : s.Made t made) (h' : t.Made u more) : s.Made u (made ++ more) := by
  rw [Made, h', h, List.reverse_append, List.append_assoc]

/-- A name is asked for with more and more room, and not after it fits with its terminator. -/
structure AskedUntilFits (name : List UInt16) (rooms : List Nat) : Prop where
  rising : rooms.IsChain (· < ·)
  fits_last : ∃ earlier last, rooms = earlier ++ [last] ∧
    (∀ room ∈ earlier, room < 2 * (name.length + 1)) ∧ 2 * (name.length + 1) ≤ last

/-- A name that the first room does not take is asked for again, with more room. -/
theorem AskedUntilFits.exists_again {name : List UInt16} {rooms others : List Nat} {first : Nat}
    (h : AskedUntilFits name rooms) (hfirst : (rooms ++ others).head? = some first)
    (hshort : first < 2 * (name.length + 1)) :
    ∃ second more, rooms = first :: second :: more ∧ first < second := by
  obtain ⟨earlier, last, hrooms, -, hlast⟩ := h.fits_last
  have hrising := h.rising
  rcases rooms with - | ⟨room, - | ⟨second, more⟩⟩
  · simp at hrooms
  · cases hfirst
    cases earlier with
    | nil =>
      cases hrooms
      omega
    | cons => simp at hrooms
  · cases hfirst
    exact ⟨second, more, rfl, hrising.rel⟩

def Exchange.nameCode? : Exchange → Option UInt32
  | ⟨.enumerateKey .., (reply : NameReply)⟩ => some reply.code
  | _ => none

def Exchange.FailsWith (x : Exchange) (code : UInt32) : Prop :=
  x.nameCode? = some code ∧ (Code.win32 code).signal = .failure

/-- No call but the last one of these failed, and if that did, the outcome is its code. -/
def StopsAtFailure (made : List Exchange) (outcome : Outcome α) : Prop :=
  ∀ before x after code, made = before ++ x :: after → x.FailsWith code →
    after = [] ∧ outcome = .failed (.reported (.win32 code))

namespace StopsAtFailure

variable {made more : List Exchange} {outcome : Outcome α} {result : Outcome β}

theorem nil (outcome : Outcome α) : StopsAtFailure [] outcome := by
  intro before x after code hsplit
  simp at hsplit

theorem of_never (h : ∀ x ∈ made, ∀ code, ¬ x.FailsWith code) (outcome : Outcome α) :
    StopsAtFailure made outcome := by
  rintro before x after code rfl hfails
  exact absurd hfails (h x (List.mem_append_right before List.mem_cons_self) code)

theorem singleton {x : Exchange}
    (hlast : ∀ code, x.FailsWith code → outcome = .failed (.reported (.win32 code))) :
    StopsAtFailure [x] outcome := by
  intro before y after code hsplit hfails
  cases before with
  | nil =>
    cases hsplit
    exact ⟨rfl, hlast code hfails⟩
  | cons z before => simp at hsplit

theorem never (h : StopsAtFailure made outcome)
    (houtcome : ∀ code, outcome = .failed (.reported (.win32 code)) →
      (Code.win32 code).signal ≠ .failure) : ∀ x ∈ made, ∀ code, ¬ x.FailsWith code := by
  intro x hx code hfails
  obtain ⟨before, after, rfl⟩ := List.append_of_mem hx
  exact houtcome code (h before x after code rfl hfails).2 hfails.2

theorem append (h : ∀ x ∈ made, ∀ code, ¬ x.FailsWith code) (hmore : StopsAtFailure more outcome) :
    StopsAtFailure (made ++ more) outcome := by
  intro before x after code hsplit hfails
  rcases List.append_eq_append_iff.mp hsplit with ⟨mid, rfl, hmid⟩ | ⟨mid, rfl, hmid⟩
  · exact hmore mid x after code hmid hfails
  · cases mid with
    | nil => exact hmore [] x after code hmid.symm hfails
    | cons y mid =>
      cases hmid
      exact absurd hfails (h x (List.mem_append_right before List.mem_cons_self) code)

end StopsAtFailure

namespace Session

variable {p : SizingPolicy} {alloc : Allocator} {call : Call σ} {decode : Decoder σ α}

theorem exists_of_reported (decode : Decoder σ α) {s : Session σ} {n : Nat} {buffer : Buffer}
    {rest : Pool} {earlier : List (Attempt σ)} {last : Attempt σ} {a : Answer}
    (hlease : s.pool.acquire alloc n = (.ok buffer, rest))
    (hcourse : Course p alloc call ⟨buffer, s.state⟩ earlier last) (ha : last.answer = some a)
    (hs : a.code.signal = .failure ∨ a.code.signal = .noMoreEntries) :
    ∃ e, single p alloc n call decode s = some e ∧ e.value = .failed (.reported a.code) := by
  obtain ⟨⟨outcome, v, log⟩, hsettled, hvalue, -, -⟩ := hcourse.settle_eq
  rw [single_of_lease hlease, settleOnce_of_settle hsettled]
  refine ⟨_, rfl, ?_⟩
  rcases hs with hs | hs
  · rw [SizingPolicy.conclude_of_failure ha hs] at hvalue
    cases hvalue
    rfl
  · rw [SizingPolicy.conclude_of_noMoreEntries ha hs] at hvalue
    cases hvalue
    rfl

/-- A run whose call asks an observed host once, and whose decoder leaves the host alone, makes
one call for each of its attempts. -/
theorem made_of_course {host : Host ω} {ask : Nat → Request} {n : Nat} {buffer : Buffer}
    {rest : Pool} {call : Call (ω × List Exchange)} {decode : Decoder (ω × List Exchange) α}
    {s : Session (ω × List Exchange)} {earlier : List (Attempt (ω × List Exchange))}
    {last : Attempt (ω × List Exchange)} {e : Effect (Session (ω × List Exchange)) (Outcome α)}
    (hcall : ∀ u, (call u).state.state =
      (host.observed.perform (ask u.buffer.capacity) u.state).2)
    (hdecode : ∀ b n t, (decode b n t).state = t)
    (hlease : s.pool.acquire alloc n = (.ok buffer, rest))
    (hcourse : Course p alloc call ⟨buffer, s.state⟩ earlier last)
    (he : single p alloc n call decode s = some e) :
    s.Made e.state ((earlier ++ [last]).map fun x => x.trial.exchangeBy host ask) := by
  obtain ⟨decoded, hrun⟩ := SingleRun.of_course hlease hcourse he
  obtain ⟨w, -, -, hleft⟩ := hcourse.askedInTurn hcall
  rw [Made, hrun.verdict.state_eq hdecode, hleft]
  simp only [List.map_append, List.map_map, List.map_cons, List.map_nil]
  rfl

end Session

theorem Attempt.map_request_exchangeBy (host : Host ω) (ask : Nat → Request)
    (attempts : List (Attempt (ω × List Exchange))) :
    (attempts.map fun x => x.trial.exchangeBy host ask).map Exchange.request =
      (attempts.map fun x => x.found.buffer.capacity).map ask := by
  simp only [List.map_map]
  rfl

namespace Broker

variable {b : Broker ω} {key : RawHandle} {index : UInt32} {names : List (List UInt16)}
  {name : List UInt16} {s : Session (ω × List Exchange)}

def nameCalls (b : Broker ω) (key : RawHandle) (index : UInt32)
    (attempts : List (Attempt (ω × List Exchange))) : List Exchange :=
  attempts.map fun x => x.trial.exchangeBy b.host (nameRequest key index)

def readName (b : Broker ω) (key : RawHandle) (index : UInt32) :
    Run (Session (ω × List Exchange)) (Outcome String) :=
  b.observed.single keyNameBytes (b.observed.keyNameCall key index) decodeText

theorem made_of_course {buffer : Buffer} {rest : Pool}
    {earlier : List (Attempt (ω × List Exchange))} {last : Attempt (ω × List Exchange)}
    {e : Effect (Session (ω × List Exchange)) (Outcome String)}
    (hlease : s.pool.acquire b.allocator keyNameBytes = (.ok buffer, rest))
    (hcourse : Course b.policy b.allocator (b.observed.keyNameCall key index) ⟨buffer, s.state⟩
      earlier last) (he : b.readName key index s = some e) :
    s.Made e.state (b.nameCalls key index (earlier ++ [last])) :=
  Session.made_of_course (fun _ => rfl) (fun _ _ _ => rfl) hlease hcourse he

theorem rising_of_course {u : InUse (ω × List Exchange)}
    {earlier : List (Attempt (ω × List Exchange))} {last : Attempt (ω × List Exchange)}
    (h : Course b.policy b.allocator (b.observed.keyNameCall key index) u earlier last) :
    ((earlier ++ [last]).map fun x => x.found.buffer.capacity).IsChain (· < ·) := by
  rw [List.isChain_map]
  refine h.isChain_raises.imp_of_mem_imp fun x y hx _ hraises => ?_
  obtain ⟨v, rfl⟩ := h.exists_attempt x hx
  have hkept := b.neverShrinks_keyNameCall key index v.clear
  exact Nat.lt_of_le_of_lt hkept hraises.1

/-- A name that fits below the ceiling is read, however small the buffer that was lent; the first
call for it offers the room of that buffer. -/
theorem exists_readName (h : b.host.ListsSubkeys key names)
    (halloc : b.allocator.Serves (max b.policy.ceiling keyNameBytes))
    (hname : names[index.toNat]? = some name)
    (hceiling : 2 * (name.length + 1) ≤ b.policy.ceiling) (s : Session (ω × List Exchange)) :
    ∃ e rooms made, b.readName key index s = some e ∧ e.value = .returned (Utf16.decode name) ∧
      AskedUntilFits name rooms ∧ s.Made e.state made ∧
      made.map Exchange.request = rooms.map (nameRequest key index) ∧
      ∀ buffer rest, s.pool.acquire b.allocator keyNameBytes = (.ok buffer, rest) →
        rooms.head? = some buffer.capacity := by
  have hneeds := needs_keyNameCall h hname
  obtain ⟨buffer, rest, hlease⟩ :=
    Pool.exists_acquire (halloc.mono (Nat.le_max_right _ keyNameBytes)) s.pool
  obtain ⟨earlier, v, hcourse, hfits⟩ := hneeds.exists_course_served
    (halloc.mono (Nat.le_max_left b.policy.ceiling _)) ⟨buffer, s.state⟩ (.inr hceiling)
  obtain ⟨e, d, he, hcontents, hvalue⟩ :=
    Session.exists_of_served decodeText hneeds hlease hcourse hfits
  refine ⟨e, _, _, he, ?_, ⟨rising_of_course hcourse, ?_⟩, made_of_course hlease hcourse he,
    Attempt.map_request_exchangeBy b.host (nameRequest key index) _, ?_⟩
  · have htext : e.value = .returned d.text := hvalue
    rw [htext, Buffer.text, Buffer.units_of_contents hcontents]
  · refine ⟨_, _, List.map_append, ?_, hfits⟩
    intro room hroom
    obtain ⟨x, hx, rfl⟩ := List.mem_map.mp hroom
    obtain ⟨u, rfl⟩ := hcourse.exists_attempt x (List.mem_append_left _ hx)
    obtain ⟨c, hc⟩ := hcourse.enlarged_of_mem _ hx
    exact Nat.lt_of_not_le fun hle => hneeds.not_enlarged hle c hc
  · intro buffer' rest' hlent
    cases hlease.symm.trans hlent
    obtain ⟨more, hcons⟩ := hcourse.exists_cons
    rw [hcons]
    rfl

theorem exists_readName_ended (h : b.host.ListsSubkeys key names)
    (halloc : b.allocator.Serves (max b.policy.ceiling keyNameBytes))
    (hended : names.length ≤ index.toNat) (s : Session (ω × List Exchange)) :
    ∃ e room made, b.readName key index s = some e ∧
      e.value = .failed (.reported (.win32 Win32.noMoreItems)) ∧ s.Made e.state made ∧
      made.map Exchange.request = [nameRequest key index room] ∧
      ∀ buffer rest, s.pool.acquire b.allocator keyNameBytes = (.ok buffer, rest) →
        room = buffer.capacity := by
  obtain ⟨buffer, rest, hlease⟩ :=
    Pool.exists_acquire (halloc.mono (Nat.le_max_right _ keyNameBytes)) s.pool
  have hanswer : ((b.observed.keyNameCall key index).attempt ⟨buffer, s.state⟩).answer =
      some ⟨.win32 Win32.noMoreItems, 0⟩ := keyNameCall_ended h hended _
  have hcourse : Course b.policy b.allocator (b.observed.keyNameCall key index)
      ⟨buffer, s.state⟩ [] _ :=
    .last _ (SizingPolicy.not_enlarged_of_signal hanswer rfl (by decide))
  obtain ⟨e, he, hvalue⟩ := Session.exists_of_reported decodeText hlease hcourse hanswer (.inr rfl)
  refine ⟨e, _, _, he, hvalue, made_of_course hlease hcourse he,
    Attempt.map_request_exchangeBy b.host (nameRequest key index) _, ?_⟩
  intro buffer' rest' hlent
  cases hlease.symm.trans hlent
  rfl

theorem exists_answer_of_nameCode? {v : InUse (ω × List Exchange)} {code : UInt32}
    (hcode : (((b.observed.keyNameCall key index).attempt v).trial.exchangeBy b.host
      (nameRequest key index)).nameCode? = some code) :
    ∃ a, ((b.observed.keyNameCall key index).attempt v).answer = some a ∧ a.code = .win32 code := by
  cases hcode
  exact ⟨_, rfl, rfl⟩

theorem exists_readName_stops (b : Broker ω) (key : RawHandle) (index : UInt32)
    (s : Session (ω × List Exchange)) :
    ∃ e made, b.readName key index s = some e ∧ s.Made e.state made ∧
      StopsAtFailure made e.value := by
  cases hlease : s.pool.acquire b.allocator keyNameBytes with
  | mk result rest =>
    cases result with
    | error f =>
      exact ⟨_, [], Session.withLease_of_refused hlease, rfl, .nil _⟩
    | ok buffer =>
      obtain ⟨earlier, last, hcourse⟩ := Course.exists_of_neverShrinks b.policy b.allocator
        (b.neverShrinks_keyNameCall key index) ⟨buffer, s.state⟩
      obtain ⟨e, -, he, -⟩ := Session.SingleRun.exists_of_course decodeText hlease hcourse
      obtain ⟨v, rfl⟩ := hcourse.exists_attempt last
        (List.mem_append_right earlier List.mem_cons_self)
      refine ⟨e, _, he, made_of_course hlease hcourse he, ?_⟩
      rw [nameCalls, List.map_append]
      refine StopsAtFailure.append ?_ (StopsAtFailure.singleton ?_)
      · intro x hx code hfails
        obtain ⟨y, hy, rfl⟩ := List.mem_map.mp hx
        obtain ⟨u, rfl⟩ := hcourse.exists_attempt y (List.mem_append_left _ hy)
        obtain ⟨c, a, ha, hs, -⟩ := hcourse.enlarged_of_mem _ hy
        obtain ⟨a', ha', hanswer⟩ := exists_answer_of_nameCode? hfails.1
        cases ha.symm.trans ha'
        rw [hanswer, hfails.2] at hs
        cases hs
      · intro code hfails
        obtain ⟨a, ha, hanswer⟩ := exists_answer_of_nameCode? hfails.1
        obtain ⟨e', he', hvalue⟩ := Session.exists_of_reported decodeText hlease hcourse ha
          (.inl (hanswer ▸ hfails.2))
        rw [hanswer] at hvalue
        cases he.symm.trans he'
        exact hvalue

/-! ### The listing -/

section Listing

variable {first : Effect (Session (ω × List Exchange)) (Outcome String)} {i : Nat}
  (remaining : Nat) (read : List String)

theorem subkeyNamesFrom_of_returned {text : String}
    (hfirst : b.readName key (UInt32.ofNat i) s = some first)
    (hvalue : first.value = .returned text)
    {e : Effect (Session (ω × List Exchange)) (Outcome (List String))}
    (he : b.observed.subkeyNamesFrom key remaining (i + 1) (text :: read) first.state = some e) :
    b.observed.subkeyNamesFrom key (remaining + 1) i read s = some (e.after first.log) := by
  refine Run.bind_eq_some.mpr ⟨first, e, hfirst, ?_, rfl⟩
  rw [hvalue]
  exact he

theorem subkeyNamesFrom_of_ended {f : Failure}
    (hfirst : b.readName key (UInt32.ofNat i) s = some first) (hvalue : first.value = .failed f)
    (hended : f.code = some (.win32 Win32.noMoreItems)) :
    ∃ log, b.observed.subkeyNamesFrom key (remaining + 1) i read s =
      some ⟨.returned read.reverse, first.state, log⟩ := by
  refine ⟨_, Run.bind_eq_some.mpr ⟨first, ⟨_, _, []⟩, hfirst, ?_, rfl⟩⟩
  rw [hvalue]
  exact congrFun (if_pos hended) first.state

theorem subkeyNamesFrom_of_failed {f : Failure}
    (hfirst : b.readName key (UInt32.ofNat i) s = some first) (hvalue : first.value = .failed f)
    (hgoes : f.code ≠ some (.win32 Win32.noMoreItems)) :
    ∃ log, b.observed.subkeyNamesFrom key (remaining + 1) i read s =
      some ⟨.failed f, first.state, log⟩ := by
  refine ⟨_, Run.bind_eq_some.mpr ⟨first, ⟨_, _, []⟩, hfirst, ?_, rfl⟩⟩
  rw [hvalue]
  exact congrFun (if_neg hgoes) first.state

theorem subkeyNamesFrom_of_panicked
    (hfirst : b.readName key (UInt32.ofNat i) s = some first) (hvalue : first.value = .panicked) :
    ∃ log, b.observed.subkeyNamesFrom key (remaining + 1) i read s =
      some ⟨.panicked, first.state, log⟩ := by
  refine ⟨_, Run.bind_eq_some.mpr ⟨first, ⟨_, _, []⟩, hfirst, ?_, rfl⟩⟩
  rw [hvalue]
  rfl

theorem exists_subkeyNamesFrom_stops (b : Broker ω) (key : RawHandle) (i : Nat)
    (s : Session (ω × List Exchange)) :
    ∃ e made, b.observed.subkeyNamesFrom key remaining i read s = some e ∧
      s.Made e.state made ∧ StopsAtFailure made e.value := by
  induction remaining generalizing i read s with
  | zero => exact ⟨_, [], rfl, rfl, .nil _⟩
  | succ remaining ih =>
    obtain ⟨first, made, hfirst, hmade, hstops⟩ := b.exists_readName_stops key (UInt32.ofNat i) s
    cases hvalue : first.value with
    | returned text =>
      rw [hvalue] at hstops
      obtain ⟨e, more, he, hmore, hlast⟩ := ih (text :: read) (i + 1) first.state
      exact ⟨_, _, subkeyNamesFrom_of_returned remaining read hfirst hvalue he,
        hmade.trans hmore, .append (hstops.never nofun) hlast⟩
    | failed f =>
      rw [hvalue] at hstops
      by_cases hended : f.code = some (.win32 Win32.noMoreItems)
      · obtain ⟨log, he⟩ := subkeyNamesFrom_of_ended remaining read hfirst hvalue hended
        refine ⟨_, made, he, hmade, .of_never (hstops.never ?_) _⟩
        intro code hcode
        cases hcode
        cases hended
        decide
      · obtain ⟨log, he⟩ := subkeyNamesFrom_of_failed remaining read hfirst hvalue hended
        refine ⟨_, made, he, hmade, ?_⟩
        intro before x after code hsplit hfails
        obtain ⟨hlast, hfailed⟩ := hstops before x after code hsplit hfails
        cases hfailed
        exact ⟨hlast, rfl⟩
    | panicked =>
      rw [hvalue] at hstops
      obtain ⟨log, he⟩ := subkeyNamesFrom_of_panicked remaining read hfirst hvalue
      exact ⟨_, made, he, hmade, .of_never (hstops.never nofun) _⟩

def nameRequests (key : RawHandle) : Nat → List (List Nat) → List Request
  | _, [] => []
  | i, rooms :: rest =>
    rooms.map (nameRequest key (UInt32.ofNat i)) ++ nameRequests key (i + 1) rest

theorem exists_subkeyNamesFrom (h : b.host.ListsSubkeys key names)
    (halloc : b.allocator.Serves (max b.policy.ceiling keyNameBytes))
    (hceiling : ∀ name ∈ names, 2 * (name.length + 1) ≤ b.policy.ceiling)
    {front rest : List (List UInt16)} (hnames : names = front ++ rest)
    (hremaining : rest.length < remaining) (s : Session (ω × List Exchange)) :
    ∃ e rooms last made,
      b.observed.subkeyNamesFrom key remaining front.length read s = some e ∧
      e.value = .returned (read.reverse ++ rest.map Utf16.decode) ∧
      List.Forall₂ AskedUntilFits rest rooms ∧ s.Made e.state made ∧
      made.map Exchange.request = nameRequests key front.length rooms ++
        [nameRequest key (UInt32.ofNat names.length) last] ∧
      ∀ buffer rest, s.pool.acquire b.allocator keyNameBytes = (.ok buffer, rest) →
        (rooms.flatten ++ [last]).head? = some buffer.capacity := by
  have hcount := h.count_lt
  induction rest generalizing front remaining read s with
  | nil =>
    rw [List.append_nil] at hnames
    subst hnames
    cases remaining with
    | zero => cases hremaining
    | succ remaining =>
      have hindex : (UInt32.ofNat names.length).toNat = names.length := by
        rw [UInt32.toNat_ofNat']
        omega
      obtain ⟨first, room, made, hfirst, hvalue, hmade, hrequest, hroom⟩ :=
        exists_readName_ended h halloc (Nat.le_of_eq hindex.symm) s
      obtain ⟨log, he⟩ := subkeyNamesFrom_of_ended remaining read hfirst hvalue rfl
      refine ⟨_, [], room, made, he, by simp, .nil, hmade, hrequest, ?_⟩
      intro buffer rest hlent
      exact congrArg some (hroom buffer rest hlent)
  | cons name rest ih =>
    cases remaining with
    | zero => cases hremaining
    | succ remaining =>
      have hlength := congrArg List.length hnames
      rw [List.length_append, List.length_cons] at hlength
      have hindex : (UInt32.ofNat front.length).toNat = front.length := by
        rw [UInt32.toNat_ofNat']
        omega
      have hname : names[(UInt32.ofNat front.length).toNat]? = some name := by
        rw [hindex, hnames, List.getElem?_append_right (Nat.le_refl _), Nat.sub_self]
        rfl
      obtain ⟨first, rooms, made, hfirst, hvalue, hasked, hmade, hrequests, hroom⟩ :=
        exists_readName h halloc hname (hceiling name (List.mem_of_getElem? hname)) s
      have hnames' : names = (front ++ [name]) ++ rest := by
        rw [hnames, List.append_assoc]
        rfl
      obtain ⟨e, more, last, later, he, hread, hall, hlater, hrest, -⟩ :=
        ih remaining (Utf16.decode name :: read) hnames' (Nat.lt_of_succ_lt_succ hremaining)
          first.state
      rw [List.length_append, List.length_singleton] at he hrest
      refine ⟨_, rooms :: more, last, _,
        subkeyNamesFrom_of_returned remaining read hfirst hvalue he, ?_, .cons hasked hall,
        hmade.trans hlater, ?_, ?_⟩
      · rw [Effect.value_after, hread, List.reverse_cons, List.append_assoc]
        rfl
      · rw [List.map_append, hrequests, hrest, nameRequests, List.append_assoc]
      · intro buffer rest hlent
        rw [List.flatten_cons, List.append_assoc, List.head?_append, hroom buffer rest hlent]
        rfl

end Listing

variable {h : Handle (ω × List Exchange)}

/-- Every subkey is listed once and in its place. Each index is asked with growing room until its
name fits, from the room that the pool lends on, then the next one is, and the index past the last
is asked once. The system tells indexes and lengths in 32 bits, so `ListsSubkeys` bounds both: there
are fewer than 2 ^ 32 subkeys, and each name has, with its terminator, fewer than 2 ^ 32 units. And
whatever the system answers otherwise, the listing ends, makes no call after one that fails, and
fails with the code of that one. -/
theorem subkeyNames_lists_all (hkey : h.borrow = .ok key) (s : Session (ω × List Exchange)) :
    (b.host.ListsSubkeys key names →
      b.allocator.Serves (max b.policy.ceiling keyNameBytes) →
      (∀ name ∈ names, 2 * (name.length + 1) ≤ b.policy.ceiling) →
      ∃ e rooms last made, b.observed.subkeyNames h s = some e ∧
        e.value = .returned (names.map Utf16.decode) ∧
        List.Forall₂ AskedUntilFits names rooms ∧ s.Made e.state made ∧
        made.map Exchange.request = nameRequests key 0 rooms ++
          [nameRequest key (UInt32.ofNat names.length) last] ∧
        ∀ buffer rest, s.pool.acquire b.allocator keyNameBytes = (.ok buffer, rest) →
          (rooms.flatten ++ [last]).head? = some buffer.capacity) ∧
    ∃ e made, b.observed.subkeyNames h s = some e ∧ s.Made e.state made ∧
      StopsAtFailure made e.value := by
  have hrun : b.observed.subkeyNames h = b.observed.subkeyNamesFrom key 0x100000000 0 [] := by
    rw [subkeyNames, borrowing, hkey]
  rw [hrun]
  constructor
  · intro hlists halloc hceiling
    exact exists_subkeyNamesFrom 0x100000000 [] hlists halloc hceiling
      (List.nil_append names).symm hlists.count_lt s
  · exact b.exists_subkeyNamesFrom_stops 0x100000000 [] key 0 s

end Broker

def Host.listing (names : List (List UInt16)) : Host Unit where
  perform := fun r w =>
    match r with
    | .enumerateKey _ index _ chars =>
      match names[index.toNat]? with
      | none => (⟨Win32.noMoreItems, 0, .empty⟩, w)
      | some name =>
        if name.length + 1 ≤ chars.toNat then
          (⟨Win32.success, UInt32.ofNat name.length, Utf16.block name⟩, w)
        else (⟨Win32.moreData, 0, .empty⟩, w)
    | r => ((HostScript.perform r {}).1, w)
  lastError := fun _ => 0
  processHeap := 0
  memory := fun _ _ => []

theorem Host.listing_nameReply {names : List (List UInt16)} {index : UInt32} {name : List UInt16}
    (hname : names[index.toNat]? = some name) (key : RawHandle) (into : Destination)
    (chars : UInt32) (w : Unit) : (listing names).nameReply key index into chars w =
      if name.length + 1 ≤ chars.toNat then
        ⟨Win32.success, UInt32.ofNat name.length, Utf16.block name⟩
      else ⟨Win32.moreData, 0, .empty⟩ := by
  simp only [nameReply, listing, hname]
  split
  · rfl
  · rfl

theorem Host.listing_listsSubkeys {names : List (List UInt16)}
    (hcount : names.length < 0x100000000)
    (hlength : ∀ name ∈ names, name.length + 1 < 0x100000000) (key : RawHandle) :
    (listing names).ListsSubkeys key names := by
  refine ⟨hcount, hlength, ?_, ?_, ?_⟩
  · intro index into chars w hended
    have hnone : names[index.toNat]? = none := List.getElem?_eq_none hended
    simp only [nameReply, listing, hnone]
  · intro index into chars w name hname hshort
    rw [listing_nameReply hname, if_neg (Nat.not_le.mpr hshort)]
  · intro index into chars w name hname hfits
    have hlt := hlength name (List.mem_of_getElem? hname)
    have hcount : (UInt32.ofNat name.length).toNat = name.length := by
      rw [UInt32.toNat_ofNat']
      omega
    rw [listing_nameReply hname, if_pos hfits]
    refine ⟨rfl, hcount, ?_⟩
    rw [← Utf16.size_block]
    exact ByteArray.extract_zero_size

/-- The first name takes more than the 512 bytes that the pool lends, so its index is asked again
with more room. -/
theorem Broker.subkeyNames_lists_all_listing :
    let names : List (List UInt16) := [List.replicate 300 0x41, [], [0x42, 0xD800]]
    let b : Broker Unit := ⟨Host.listing names, ⟨fun _ => true⟩, {}⟩
    let key : Handle (Unit × List Exchange) := b.observed.host.own .registryKey 5
    key.borrow = .ok 5 ∧ b.host.ListsSubkeys 5 names ∧
      ∃ e room later, b.observed.subkeyNames key ⟨⟨{}, []⟩, ((), [])⟩ = some e ∧
        e.value = .returned [String.ofList (List.replicate 300 'A'), "", "B\uFFFD"] ∧
        e.state.state.2.reverse.map Exchange.request =
          nameRequest 5 0 512 :: nameRequest 5 0 room :: later ∧ 512 < room := by
  intro names b key
  have hkey : key.borrow = .ok 5 := rfl
  have hlength : ∀ name ∈ names, name.length ≤ 300 := by
    intro name hname
    simp only [names, List.mem_cons, List.not_mem_nil, or_false] at hname
    rcases hname with rfl | rfl | rfl
    · exact Nat.le_of_eq List.length_replicate
    · decide
    · decide
  have hlists : b.host.ListsSubkeys 5 names := by
    refine Host.listing_listsSubkeys (by decide) ?_ 5
    intro name hname
    have := hlength name hname
    omega
  have hceiling : ∀ name ∈ names, 2 * (name.length + 1) ≤ b.policy.ceiling := by
    intro name hname
    have := hlength name hname
    exact Nat.le_trans (by omega : 2 * (name.length + 1) ≤ 602) (by decide)
  let lent : Buffer := Buffer.empty.extend 512 (by decide)
  have hlent : Pool.acquire b.allocator keyNameBytes ⟨{}, []⟩ = (.ok lent, ⟨{}, []⟩) := rfl
  obtain ⟨hserved, -⟩ := subkeyNames_lists_all hkey ⟨⟨{}, []⟩, ((), [])⟩
  obtain ⟨e, rooms, last, made, he, hvalue, hasked, hmade, hrequests, hfirst⟩ :=
    hserved hlists (Allocator.serves_of_provides (by decide)) hceiling
  have hhead := hfirst lent ⟨{}, []⟩ hlent
  rw [Buffer.capacity_extend_empty] at hhead
  obtain ⟨first, others, hlong, -, rfl⟩ := List.forall₂_cons_left_iff.mp hasked
  rw [List.flatten_cons, List.append_assoc] at hhead
  obtain ⟨room, more, rfl, hroom⟩ := hlong.exists_again hhead (by
    rw [List.length_replicate]
    decide)
  obtain ⟨later, hcalls⟩ : ∃ later, made.map Exchange.request =
      nameRequest 5 0 512 :: nameRequest 5 0 room :: later := ⟨_, hrequests⟩
  have hunits : Utf16.encode (String.ofList (List.replicate 300 'A')) =
      List.replicate 300 0x41 := by
    rw [Utf16.encode, String.toList_ofList, List.flatMap_replicate]
    exact List.flatten_replicate_singleton
  have htext : Utf16.decode (List.replicate 300 0x41) = String.ofList (List.replicate 300 'A') := by
    rw [← hunits, Utf16.decode_encode]
  refine ⟨hkey, hlists, e, room, later, he, ?_, ?_, hroom⟩
  · rw [hvalue, ← htext]
    rfl
  · rw [hmade, List.append_nil, List.reverse_reverse, hcalls]

end NativeResource

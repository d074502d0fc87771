import NativeResource.Proofs.Broker.Identifier
import NativeResource.Proofs.Handle.Reporting
import NativeResource.Proofs.Sizing.Chronicle
import NativeResource.Proofs.Sizing.Lease
/-!
The text that the system allocates for a token's user is freed once. It is owned while the buffer
that names the user is read, inside the run that lent that buffer. Freeing it can fail, and so can
the call that gives it and the query before; whichever does, what was handed out is what is freed,
the handle that owned it is dropped without a trace, and the buffer goes back to the pool.
-/
namespace NativeResource

variable {σ ω α : Type}

/-- The block that a call hands out for the text of an identifier: it says that it succeeded, and
the address is not the null one. -/
def Request.granted? : (r : Request) → r.Reply → Option RawHandle
  | .identifierText _, (reply : IdentifierReply) =>
    if reply.ok = true ∧ reply.text ≠ 0 then some reply.text.toInt64 else none
  | _, _ => none

def Request.freed? : Request → Option RawHandle
  | .localFree block => some block
  | _ => none

def Exchange.granted? (x : Exchange) : Option RawHandle := x.request.granted? x.reply

def Exchange.freed? (x : Exchange) : Option RawHandle := x.request.freed?

theorem Handle.release_drop_apply (h : Handle σ) (f : Except Failure Unit → α) (s : σ) :
    (do
      let (result, released) ← h.release
      released.drop
      return f result : Action σ α) s =
      ⟨f (h.release s).value.1, (h.release s).state, (h.release s).log⟩ := by
  have hreleased : (h.release s).value.2.isLive = false := by
    rw [h.handle_release]
    rfl
  simp only [Action.bind_apply, Action.pure_apply, drop_of_not_live hreleased, List.append_nil]

namespace Host

variable {host : Host ω} {identifier : Address} {w after : ω} {result : Except Failure String}
  {later : List Exchange}

inductive TextRead (host : Host ω) (identifier : Address) (w : ω) :
    Except Failure String → List Exchange → ω → Prop where
  | refused {reply : IdentifierReply} {after : ω} :
      host.perform (.identifierText identifier) w = (reply, after) → reply.ok = false →
      TextRead host identifier w (.error (.reported (.win32 (host.lastError after))))
        [⟨.identifierText identifier, reply⟩] after
  /-- At the null address there is no text, and nothing to free. -/
  | empty {reply : IdentifierReply} {after : ω} :
      host.perform (.identifierText identifier) w = (reply, after) → reply.ok = true →
      reply.text = 0 →
      TextRead host identifier w (.ok "") [⟨.identifierText identifier, reply⟩] after
  /-- The text is that of the units before the first null, as they were before the block was
  freed. -/
  | freed {reply : IdentifierReply} {between after : ω} :
      host.perform (.identifierText identifier) w = (reply, between) → reply.ok = true →
      reply.text ≠ 0 →
      host.perform (.localFree reply.text.toInt64) between = ((0 : RawHandle), after) →
      TextRead host identifier w
        (.ok (Utf16.decode ((host.memory between).terminated reply.text)))
        [⟨.localFree reply.text.toInt64, (0 : RawHandle)⟩, ⟨.identifierText identifier, reply⟩]
        after
  /-- The text is given up with a block that could not be freed, which is not freed again. -/
  | unfreed {reply : IdentifierReply} {rest : RawHandle} {between after : ω} :
      host.perform (.identifierText identifier) w = (reply, between) → reply.ok = true →
      reply.text ≠ 0 →
      host.perform (.localFree reply.text.toInt64) between = (rest, after) → rest ≠ 0 →
      TextRead host identifier w (.error (.reported (.win32 (host.lastError after))))
        [⟨.localFree reply.text.toInt64, rest⟩, ⟨.identifierText identifier, reply⟩] after

theorem TextRead.freed_eq_granted (h : host.TextRead identifier w result later after) :
    later.filterMap Exchange.freed? = later.filterMap Exchange.granted? := by
  have hasked : ∀ reply : IdentifierReply,
      [⟨.identifierText identifier, reply⟩].filterMap Exchange.granted? =
        (if reply.ok = true ∧ reply.text ≠ 0 then some reply.text.toInt64 else none).toList := by
    intro reply
    rw [List.filterMap_eq_flatMap_toList, List.flatMap_singleton]
    rfl
  cases h with
  | @refused reply _ _ hok =>
    refine Eq.trans ?_ (hasked reply).symm
    rw [if_neg fun h => Bool.false_ne_true (hok.symm.trans h.1)]
    rfl
  | @empty reply _ _ _ htext =>
    refine Eq.trans ?_ (hasked reply).symm
    rw [if_neg fun h => h.2 htext]
    rfl
  | @freed reply _ _ _ hok htext _ | @unfreed reply _ _ _ _ hok htext _ _ =>
    refine Eq.trans ?_ (hasked reply).symm
    rw [if_pos ⟨hok, htext⟩]
    rfl

theorem TextRead.length_freed_le (h : host.TextRead identifier w result later after) :
    (later.filterMap Exchange.freed?).length ≤ 1 := by
  cases h with
  | refused | empty => exact Nat.zero_le 1
  | freed | unfreed => exact Nat.le_refl 1

theorem ask_bind_apply {r : Request} {reply : r.Reply} {v : ω × List Exchange}
    (h : host.perform r v.1 = (reply, after)) (f : r.Reply → Action (ω × List Exchange) α) :
    (host.observed.ask r >>= f) v = f reply (after, ⟨r, reply⟩ :: v.2) := by
  simp only [Action.bind_apply, ask, Action.quiet, observed, h]
  rfl

theorem checkFlag_eq (host : Host ω) (ok : Bool) (w : ω) :
    host.checkFlag ok w =
      ⟨if ok then .ok () else .error (.reported (.win32 (host.lastError w))), w, []⟩ := by
  cases ok <;> rfl

theorem isLive_own_localMemory (host : Host ω) (text : Address) :
    (host.own .localMemory text.toInt64).isLive = true ↔ text ≠ 0 := by
  have hzero : text.toInt64 = 0 ↔ text = 0 := by
    constructor
    · intro h
      exact congrArg Int64.toUInt64 h
    · rintro rfl
      rfl
  simp [Handle.isLive, own, Handle.isInvalid, family, ResourceFamily.sentinel, Sentinel.holds,
    hzero]

theorem release_localMemory {text : Address} (htext : text ≠ 0) {rest : RawHandle}
    {v : ω × List Exchange} (h : host.perform (.localFree text.toInt64) v.1 = (rest, after)) :
    (host.observed.own .localMemory text.toInt64).release v =
      ⟨(if rest == 0 then .ok () else .error (.reported (.win32 (host.lastError after))),
          (host.observed.own .localMemory text.toInt64).markReleased),
        (after, ⟨.localFree text.toInt64, rest⟩ :: v.2),
        [.releasing ResourceFamily.localMemory.name text.toInt64]⟩ := by
  have hclose : host.observed.close .localMemory text.toInt64 v = _ :=
    (ask_bind_apply h fun rest : RawHandle => host.observed.checkFlag (rest == 0)).trans
      (host.observed.checkFlag_eq _ _)
  rw [Handle.release_of_live ((host.observed.isLive_own_localMemory text).mpr htext)]
  simp only [own, family, hclose]
  rfl

theorem identifierText_of_ok {reply : IdentifierReply} {v : ω × List Exchange}
    (h : host.perform (.identifierText identifier) v.1 = (reply, after)) (hok : reply.ok = true)
    {freed : Effect (ω × List Exchange) (Except Failure Unit × Handle (ω × List Exchange))}
    (hfreed : (host.observed.own .localMemory reply.text.toInt64).release
      (after, ⟨.identifierText identifier, reply⟩ :: v.2) = freed) :
    Broker.identifierText host.observed identifier v =
      ⟨freed.value.1.map fun () => (host.memory after).text reply.text, freed.state,
        freed.log⟩ := by
  subst hfreed
  refine (ask_bind_apply h _).trans ?_
  dsimp only
  rw [if_pos hok]
  exact Handle.release_drop_apply (host.observed.own .localMemory reply.text.toInt64)
    (fun freed => freed.map fun () => (host.memory after).text reply.text) _

theorem exists_textRead (host : Host ω) (identifier : Address) (v : ω × List Exchange) :
    ∃ result later after, host.TextRead identifier v.1 result later after ∧
      Broker.identifierText host.observed identifier v =
        ⟨result, (after, later ++ v.2),
          (later.filterMap Exchange.freed?).map
            (.releasing ResourceFamily.localMemory.name)⟩ := by
  obtain ⟨reply, between, hasked⟩ : ∃ (reply : IdentifierReply) (between : ω),
      host.perform (.identifierText identifier) v.1 = (reply, between) := ⟨_, _, rfl⟩
  by_cases hok : reply.ok = true
  · by_cases htext : reply.text = 0
    · have hlive : (host.observed.own .localMemory reply.text.toInt64).isLive = false := by
        rw [Bool.eq_false_iff, Ne, host.observed.isLive_own_localMemory]
        exact not_not_intro htext
      refine ⟨_, _, _, .empty hasked hok htext, ?_⟩
      rw [identifierText_of_ok hasked hok (Handle.release_of_not_live hlive _), htext]
      rfl
    · obtain ⟨rest, after, hfreed⟩ : ∃ (rest : RawHandle) (after : ω),
          host.perform (.localFree reply.text.toInt64) between = (rest, after) := ⟨_, _, rfl⟩
      have hread := identifierText_of_ok hasked hok (release_localMemory htext hfreed)
      by_cases hrest : rest = 0
      · subst hrest
        refine ⟨_, _, _, .freed hasked hok htext hfreed, hread.trans ?_⟩
        rw [Memory.text, if_neg htext]
        rfl
      · refine ⟨_, _, _, .unfreed hasked hok htext hfreed hrest, hread.trans ?_⟩
        rw [if_neg (mt beq_iff_eq.mp hrest)]
        rfl
  · have hrefused : reply.ok = false := Bool.eq_false_iff.mpr hok
    refine ⟨_, _, _, .refused hasked hrefused, (ask_bind_apply hasked _).trans ?_⟩
    dsimp only
    rw [if_neg hok]
    rfl

end Host

namespace Broker

variable {b : Broker ω} {token : Handle (ω × List Exchange)} {raw : RawHandle}
  {s : Session (ω × List Exchange)} {x : Attempt (ω × List Exchange)}
  {outcome : Outcome String} {later calls : List Exchange}
  {e : Effect (Session (ω × List Exchange)) (Outcome String)}

inductive TextAsked (b : Broker ω) (raw : RawHandle) (x : Attempt (ω × List Exchange)) :
    Outcome String → List Exchange → ω → Prop where
  | unread {f : Failure} : ¬ (b.TakesUser raw x.trial ∧
        (b.userReply raw x.trial).returned.toNat ≤ x.trial.capacity) →
      TextAsked b raw x (.failed f) [] x.left.state.1
  | read {result : Except Failure String} {later : List Exchange} {after : ω} :
      b.TakesUser raw x.trial →
      (b.userReply raw x.trial).returned.toNat ≤ x.trial.capacity →
      b.host.TextRead (Layout.addressAt x.left.buffer.bytes 0) x.left.state.1 result later after →
      TextAsked b raw x (.ofExcept result) later after

/-- A query for the user of a token from its start to its end, with the calls that it makes, the
latest first. -/
inductive UserRun (b : Broker ω) (token : Handle (ω × List Exchange))
    (s : Session (ω × List Exchange)) (calls : List Exchange)
    (e : Effect (Session (ω × List Exchange)) (Outcome String)) : Prop where
  | unborrowed {f : Failure} : token.borrow = .error f → calls = [] → e = ⟨.failed f, s, []⟩ →
      UserRun b token s calls e
  | unleased {raw : RawHandle} {f : Failure} {rest : Pool} : token.borrow = .ok raw →
      s.pool.acquire b.allocator tokenUserBytes = (.error f, rest) → calls = [] →
      e = ⟨.failed f, ⟨rest, s.state⟩, []⟩ → UserRun b token s calls e
  | leased {raw : RawHandle} {lent used : Buffer} {rest : Pool}
      {earlier : List (Attempt (ω × List Exchange))} {last : Attempt (ω × List Exchange)}
      {later : List Exchange} {after : ω} : token.borrow = .ok raw →
      s.pool.acquire b.allocator tokenUserBytes = (.ok lent, rest) →
      Course b.policy b.allocator (b.observed.userCall raw) ⟨lent, s.state⟩ earlier last →
      b.TextAsked raw last e.value later after →
      calls = later ++ ((earlier.map Attempt.trial ++ [last.trial]).map
        (Trial.exchangeBy b.host (userRequest raw))).reverse →
      e.state.state = (after, calls ++ s.state.2) →
      e.log = (earlier ++ [last]).filterMap b.policy.growing? ++
        ((b.policy.closing? last).toList ++ ((later.filterMap Exchange.freed?).map
          (.releasing ResourceFamily.localMemory.name) ++ (rest.release used).2)) →
      used.bytes = last.left.buffer.bytes → e.state.pool = (rest.release used).1 →
      UserRun b token s calls e

theorem userCall_silent (b : Broker ω) (raw : RawHandle) : (b.userCall raw).Silent := by
  intro u
  exact congrArg Effect.log (b.userCall_apply raw rfl)

theorem completes_userCall_iff {v : InUse (ω × List Exchange)}
    (hx : x = (b.observed.userCall raw).attempt v) :
    x.Completes ↔ b.TakesUser raw x.trial ∧
      (b.userReply raw x.trial).returned.toNat ≤ x.trial.capacity := by
  obtain ⟨ha, hleft⟩ := b.answer_userCall hx
  have hcapacity : x.left.buffer.capacity = x.trial.capacity := by
    rw [hleft, Buffer.capacity_overlay]
    rfl
  have htaken : (Code.win32 (b.userCode raw x.trial)).signal = .success ↔
      b.TakesUser raw x.trial :=
    Code.signal_win32_eq_success_iff.trans userCode_eq_success_iff
  simp [Attempt.Completes, ha, htaken, hcapacity]

theorem log_decodeUser_of_room (b : Broker ω) {buffer : Buffer}
    (h : Layout.tokenUserBytes ≤ buffer.capacity) (n : Nat) (w : ω) :
    (b.decodeUser buffer n w).log =
      (identifierText b.host (Layout.addressAt buffer.bytes 0) w).log := by
  simp only [decodeUser, Layout.tokenUser?_of_room h]
  exact List.append_nil _

theorem TextAsked.freed_once {after : ω} (h : b.TextAsked raw x outcome later after) :
    later.filterMap Exchange.freed? = later.filterMap Exchange.granted? ∧
      (later.filterMap Exchange.freed?).length ≤ 1 := by
  cases h with
  | unread => exact ⟨rfl, Nat.zero_le 1⟩
  | read _ _ hread => exact ⟨hread.freed_eq_granted, hread.length_freed_le⟩

/-- Whatever the query reports between its attempts and the return of its buffer is the release of
the block that it frees. -/
theorem UserRead.exists_textAsked {v : InUse (ω × List Exchange)} {w : ω × List Exchange}
    {rest : Pool} {earlier : List (Attempt (ω × List Exchange))} {used : Buffer}
    {told : List Event} (h : b.UserRead raw x outcome w)
    (hx : x = (b.observed.userCall raw).attempt v)
    (hroom : Layout.tokenUserBytes ≤ x.left.buffer.capacity)
    (htold : Session.Told b.policy b.observed.decodeUser rest earlier x used told e) :
    ∃ later after, b.TextAsked raw x outcome later after ∧
      w = (after, later ++ x.left.state.2) ∧
      told = (later.filterMap Exchange.freed?).map
        (.releasing ResourceFamily.localMemory.name) := by
  have hcompletes := completes_userCall_iff hx
  cases h with
  | failed hn =>
    have hunread : ¬ x.Completes := fun h => hn (hcompletes.mp h).1
    exact ⟨[], _, .unread (mt hcompletes.mpr hunread), rfl, htold.undecoded hunread⟩
  | overlong _ hlong _ =>
    have hunread : ¬ x.Completes := fun h => Nat.not_le.mpr hlong (hcompletes.mp h).2
    exact ⟨[], _, .unread (mt hcompletes.mpr hunread), rfl, htold.undecoded hunread⟩
  | read htaken hfits _ _ =>
    obtain ⟨result, later, after, hread, heq⟩ := b.host.exists_textRead
      (Layout.addressAt x.left.buffer.bytes 0) x.left.state
    change identifierText b.observed.host _ x.left.state = _ at heq
    have hused : Layout.tokenUserBytes ≤ used.capacity := by
      rw [Buffer.capacity, htold.used_bytes]
      exact hroom
    have hlog := b.observed.log_decodeUser_of_room hused used.length x.left.state
    rw [← htold.decoded (hcompletes.mpr ⟨htaken, hfits⟩), htold.used_bytes, heq] at hlog
    rw [heq]
    exact ⟨later, after, .read htaken hfits hread, rfl, hlog⟩

theorem exists_userRun (b : Broker ω) (token : Handle (ω × List Exchange))
    (s : Session (ω × List Exchange)) :
    ∃ e calls, b.observed.tokenUser token s = some e ∧ b.UserRun token s calls e := by
  cases htoken : token.borrow with
  | error f => exact ⟨_, [], borrowing_of_error htoken s, .unborrowed htoken rfl rfl⟩
  | ok raw =>
    rw [tokenUser, borrowing, htoken]
    obtain ⟨e, he, hended⟩ := Session.exists_singleRun b.policy b.allocator tokenUserBytes
      b.observed.decodeUser (b.observed.userCall_neverShrinks raw) s
    rcases hended with ⟨f, rest, hlease, rfl⟩ |
      ⟨lent, rest, earlier, v, decoded, hlease, hrun, hroom⟩
    · exact ⟨_, [], he, .unleased htoken hlease rfl rfl⟩
    · have hfits : Layout.tokenUserBytes ≤ v.buffer.capacity := Nat.le_trans (by decide) hroom
      have hkept : Layout.tokenUserBytes ≤
          ((b.observed.userCall raw).attempt v).left.buffer.capacity :=
        Nat.le_trans hfits (b.observed.userCall_neverShrinks raw v.clear)
      obtain ⟨used, told, htold⟩ :=
        Session.Told.of_course (b.observed.userCall_silent raw) hlease hrun.course he
      obtain ⟨later, after, hasked, hstate, hlog⟩ :=
        (b.userRead_of_verdict rfl hfits hrun.verdict).exists_textAsked rfl hkept htold
      obtain ⟨w, -, -, hleft⟩ := hrun.course.askedInTurn (b.state_userCall raw)
      refine ⟨e, _, he, .leased htoken hlease hrun.course hasked rfl ?_ ?_ htold.used_bytes
        htold.returned⟩
      · rw [hstate, hleft, List.append_assoc]
      · rw [htold.log_eq, hlog]

theorem UserRun.calls_eq (h : b.UserRun token s calls e) :
    e.state.state.2 = calls ++ s.state.2 := by
  cases h with
  | unborrowed _ hcalls he | unleased _ _ hcalls he =>
    rw [he, hcalls]
    rfl
  | leased _ _ _ _ _ hstate _ _ _ => rw [hstate]

theorem UserRun.freed_once (h : b.UserRun token s calls e) :
    calls.filterMap Exchange.freed? = calls.filterMap Exchange.granted? ∧
      (calls.filterMap Exchange.freed?).length ≤ 1 := by
  cases h with
  | unborrowed _ hcalls _ | unleased _ _ hcalls _ =>
    rw [hcalls]
    exact ⟨rfl, Nat.zero_le 1⟩
  | @leased raw _ _ _ earlier last later after _ _ _ hasked hcalls _ _ _ _ =>
    -- A call for the user neither hands out a block nor frees one.
    have hnone : ∀ (f : Exchange → Option RawHandle) (trials : List (Trial ω)),
        (∀ t : Trial ω, f (t.exchangeBy b.host (userRequest raw)) = none) →
        (trials.map (Trial.exchangeBy b.host (userRequest raw))).reverse.filterMap f = [] := by
      intro f trials hf
      rw [List.filterMap_eq_nil_iff]
      intro y hy
      obtain ⟨t, -, rfl⟩ := List.mem_map.mp (List.mem_reverse.mp hy)
      exact hf t
    rw [hcalls, List.filterMap_append, List.filterMap_append, hnone _ _ fun _ => rfl,
      hnone _ _ fun _ => rfl, List.append_nil, List.append_nil]
    exact hasked.freed_once

theorem UserRun.undropped (h : b.UserRun token s calls e) (family : String) (failure : Failure) :
    .dropFailed family failure ∉ e.log := by
  cases h with
  | unborrowed _ _ he | unleased _ _ _ he =>
    rw [he]
    exact List.not_mem_nil
  | leased _ _ _ _ _ _ hlog _ _ =>
    rw [hlog]
    simp only [List.mem_append, List.mem_filterMap, Option.mem_toList, List.mem_map]
    rintro (⟨x, -, hx⟩ | hclosing | ⟨block, -, hblock⟩ | hreleased)
    · obtain ⟨_, _, _, hevent⟩ := SizingPolicy.exists_of_growing? hx
      cases hevent
    · obtain ⟨_, _, ⟨_, _, hevent⟩ | ⟨_, hevent⟩⟩ := SizingPolicy.closing?_eq_some_iff.mp hclosing
      · cases hevent
      · cases hevent
    · cases hblock
    · rcases Pool.mem_release_snd hreleased with hevent | hevent <;> cases hevent

structure TextFreed (b : Broker ω) (token : Handle (ω × List Exchange))
    (s : Session (ω × List Exchange)) (calls : List Exchange)
    (e : Effect (Session (ω × List Exchange)) (Outcome String)) : Prop where
  run : b.UserRun token s calls e
  calls_eq : e.state.state.2 = calls ++ s.state.2
  freed_eq_granted : calls.filterMap Exchange.freed? = calls.filterMap Exchange.granted?
  at_most_once : (calls.filterMap Exchange.freed?).length ≤ 1
  undropped : ∀ family failure, .dropFailed family failure ∉ e.log
  /-- The pool is left as by any run of the same calls, whatever it reads. -/
  pool_eq : ∀ {β : Type} (raw : RawHandle) (decode : Decoder (ω × List Exchange) β),
    token.borrow = .ok raw → ∃ e', Session.single b.policy b.allocator tokenUserBytes
      (b.observed.userCall raw) decode s = some e' ∧ e'.state.pool = e.state.pool
  returned : ∀ (raw : RawHandle) (lent : Buffer) (rest : Pool), token.borrow = .ok raw →
    s.pool.acquire b.allocator tokenUserBytes = (.ok lent, rest) →
    s.pool.size ≤ s.pool.limits.maxSlots →
    ∃ earlier final used, Course b.policy b.allocator (b.observed.userCall raw) ⟨lent, s.state⟩
      earlier final ∧ Session.LeaseReturned tokenUserBytes s rest final used e

/-- The text that the system allocates for a token's user is freed exactly once on every path: the
blocks that a query frees are those that were handed out to it, and there is one at most. If it
cannot be freed the query fails with that error, and dropping what owned it neither frees it again
nor reports anything; if it is freed the query returns the text that was in it. The buffer that the
query was lent goes back as after any other run. -/
theorem user_text_freed_once (b : Broker ω) (token : Handle (ω × List Exchange))
    (s : Session (ω × List Exchange)) :
    ∃ e calls, b.observed.tokenUser token s = some e ∧ b.TextFreed token s calls e := by
  obtain ⟨e, calls, he, hrun⟩ := b.exists_userRun token s
  obtain ⟨hfreed, honce⟩ := hrun.freed_once
  refine ⟨e, calls, he, hrun, hrun.calls_eq, hfreed, honce, hrun.undropped, ?_, ?_⟩
  · intro β raw decode htoken
    rw [tokenUser, borrowing, htoken] at he
    exact Session.exists_single_pool_eq he decode
  · intro raw lent rest htoken hlease hsize
    rw [tokenUser, borrowing, htoken] at he
    exact Session.single_returns_lease hlease hsize he

end Broker

end NativeResource

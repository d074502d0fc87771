import NativeResource.Proofs.Broker.NativeFailure
/-!
The identifier in what a query for a token's user left. Whether a buffer has a token user in it is
decided by its capacity, and every buffer lent for the query has room for one. So after a success
that fits, however little of it was reported, the start of the buffer is read as an address: it is
what the call wrote, over what the buffer held before.
-/
namespace NativeResource

variable {σ ω : Type}

/-! ### The text of an identifier -/

theorem Host.reported_of_checkFlag_error {host : Host ω} {ok : Bool} {w : ω} {f : Failure}
    (h : (host.checkFlag ok w).value = .error f) : ∃ code, f = .reported code := by
  cases ok with
  | true => cases h
  | false =>
    cases h
    exact ⟨_, rfl⟩

theorem Handle.close_failed_of_release {h : Handle σ} {s : σ} {f : Failure}
    (hf : (h.release s).value.1 = .error f) : ∃ t, (h.family.close h.raw t).value = .error f := by
  unfold release at hf
  split at hf
  · exact ⟨_, hf⟩
  · cases hf

theorem Broker.reported_of_identifierText_error {host : Host ω} {identifier : Address} {w : ω}
    {f : Failure} (h : (identifierText host identifier w).value = .error f) :
    ∃ code, f = .reported code := by
  have hrest : ∃ g, identifierText host identifier =
        (host.ask (.identifierText identifier) >>= g) ∧
      ∀ reply t f, (g reply t).value = .error f → ∃ code, f = .reported code := by
    refine ⟨_, rfl, ?_⟩
    intro (reply : IdentifierReply) t f h
    split at h
    · simp only [Action.bind_apply, Action.pure_apply] at h
      generalize hfreed : Handle.release _ _ = freed at h
      obtain ⟨⟨result, rest⟩, after, log⟩ := freed
      cases result with
      | ok => cases h
      | error g =>
        cases h
        obtain ⟨t', ht⟩ := Handle.close_failed_of_release (congrArg (·.value.1) hfreed)
        exact Host.reported_of_checkFlag_error ht
    · cases h
      exact ⟨_, rfl⟩
  obtain ⟨g, heq, hg⟩ := hrest
  rw [heq] at h
  exact hg _ _ _ h

namespace Broker

/-- The call for the user is taken for a success: it was one, or it failed and left no error. -/
def TakesUser (b : Broker ω) (raw : RawHandle) (t : Trial ω) : Prop :=
  (b.userReply raw t).ok = true ∨ t.errorBy b.host (userRequest raw) = Win32.success

inductive UserRead (b : Broker ω) (raw : RawHandle) (x : Attempt (ω × List Exchange)) :
    Outcome String → ω × List Exchange → Prop where
  | failed {f : Failure} : ¬ b.TakesUser raw x.trial → UserRead b raw x (.failed f) x.left.state
  | overlong {f : Failure} : b.TakesUser raw x.trial →
      x.trial.capacity < (b.userReply raw x.trial).returned.toNat → f.kind = .invalidArgument →
      UserRead b raw x (.failed f) x.left.state
  /-- The text is asked for of the address at the start of the buffer, whatever the size was. -/
  | read {reply : IdentifierReply} {later : List Exchange} : b.TakesUser raw x.trial →
      (b.userReply raw x.trial).returned.toNat ≤ x.trial.capacity →
      (identifierText b.observed.host (Layout.addressAt x.left.buffer.bytes 0)
          x.left.state).state.2 =
        later ++ ⟨.identifierText (Layout.addressAt x.left.buffer.bytes 0), reply⟩ ::
          x.left.state.2 →
      (∀ y ∈ later, ∃ text, y.request = .localFree text) →
      UserRead b raw x
        (.ofExcept (identifierText b.observed.host (Layout.addressAt x.left.buffer.bytes 0)
          x.left.state).value)
        (identifierText b.observed.host (Layout.addressAt x.left.buffer.bytes 0)
          x.left.state).state

theorem userRead_of_verdict (b : Broker ω) {raw : RawHandle} {v : InUse (ω × List Exchange)}
    {x : Attempt (ω × List Exchange)} {outcome : Outcome String} {w : ω × List Exchange}
    {decoded : List (Buffer × Nat)} (hx : x = (b.observed.userCall raw).attempt v)
    (hroom : Layout.tokenUserBytes ≤ x.trial.capacity)
    (h : Session.Verdict b.policy b.allocator b.observed.decodeUser x outcome w decoded) :
    b.UserRead raw x outcome w := by
  obtain ⟨ha, hleft⟩ := b.answer_userCall hx
  have hcapacity : x.left.buffer.capacity = x.trial.capacity := by
    rw [hleft, Buffer.capacity_overlay]
    rfl
  by_cases htaken : b.TakesUser raw x.trial
  · have hs : (Code.win32 (b.userCode raw x.trial)).signal = .success := by
      rw [userCode_eq_success_iff.mpr htaken]
      rfl
    cases h with
    | @decoded a d ha' _ hfits hbytes _ =>
      cases ha.symm.trans ha'
      have hd : Layout.tokenUserBytes ≤ d.capacity := by
        rw [Buffer.capacity, hbytes]
        exact Nat.le_trans hroom (Nat.le_of_eq hcapacity.symm)
      obtain ⟨hvalue, hstate⟩ := b.observed.decodeUser_of_room hd
        (b.userReply raw x.trial).returned.toNat x.left.state
      obtain ⟨reply, later, hlater, hfree⟩ :=
        b.identifierText_calls (Layout.addressAt x.left.buffer.bytes 0) x.left.state
      rw [hvalue, hstate, hbytes]
      exact .read htaken (Nat.le_trans hfits (Nat.le_of_eq hcapacity)) hlater hfree
    | tooLong ha' _ hlong hkind _ =>
      cases ha.symm.trans ha'
      rw [hcapacity] at hlong
      exact .overlong htaken hlong hkind
    | more ha' hs' _ _ _ | exhausted ha' hs' _ _ | reported ha' hs' _ _ | refused ha' hs' _ _ _
    | unprovided ha' hs' _ _ _ _ =>
      cases ha.symm.trans ha'
      rw [hs] at hs'
      cases hs'
    | unwound ha' =>
      rw [ha] at ha'
      cases ha'
  · have hcode := mt userCode_eq_success_iff.mp htaken
    have hs := mt Code.signal_win32_eq_success_iff.mp hcode
    obtain ⟨-, rfl, f, rfl, -, -⟩ := h.failed_of_signal ha hs fun hmore =>
      absurd hmore (Code.signal_win32_ne_moreEntries _)
    exact .failed htaken

structure Asked (x : Attempt (ω × List Exchange)) (outcome : Outcome String)
    (w : ω × List Exchange) : Prop where
  asked : ∃ (reply : IdentifierReply) (later : List Exchange),
    w.2 = later ++ ⟨.identifierText (Layout.addressAt x.left.buffer.bytes 0), reply⟩ ::
      x.left.state.2
  ended : (∃ text, outcome = .returned text) ∨ ∃ code, outcome = .failed (.reported code)

theorem UserRead.eq_of_fits {b : Broker ω} {raw : RawHandle} {x : Attempt (ω × List Exchange)}
    {outcome : Outcome String} {w : ω × List Exchange} (h : b.UserRead raw x outcome w)
    (htaken : b.TakesUser raw x.trial)
    (hfits : (b.userReply raw x.trial).returned.toNat ≤ x.trial.capacity) :
    outcome = .ofExcept (identifierText b.observed.host (Layout.addressAt x.left.buffer.bytes 0)
        x.left.state).value ∧
      w = (identifierText b.observed.host (Layout.addressAt x.left.buffer.bytes 0)
        x.left.state).state := by
  cases h with
  | failed hn => exact absurd htaken hn
  | overlong _ hlong _ => exact absurd hfits (Nat.not_le.mpr hlong)
  | read _ _ _ _ => exact ⟨rfl, rfl⟩

theorem UserRead.asked_of_short {b : Broker ω} {raw : RawHandle}
    {x : Attempt (ω × List Exchange)} {outcome : Outcome String} {w : ω × List Exchange}
    (h : b.UserRead raw x outcome w) (hroom : Layout.tokenUserBytes ≤ x.trial.capacity)
    (htaken : b.TakesUser raw x.trial)
    (hshort : (b.userReply raw x.trial).returned.toNat < Layout.tokenUserBytes) :
    Asked x outcome w := by
  obtain ⟨rfl, rfl⟩ := h.eq_of_fits htaken (Nat.le_trans (Nat.le_of_lt hshort) hroom)
  obtain ⟨reply, later, hcalls, -⟩ :=
    b.identifierText_calls (Layout.addressAt x.left.buffer.bytes 0) x.left.state
  refine ⟨⟨reply, later, hcalls⟩, ?_⟩
  cases hvalue : (identifierText b.observed.host (Layout.addressAt x.left.buffer.bytes 0)
      x.left.state).value with
  | ok text => exact .inl ⟨text, rfl⟩
  | error f =>
    obtain ⟨code, rfl⟩ := reported_of_identifierText_error hvalue
    exact .inr ⟨code, rfl⟩

theorem not_enlarged_of_takesUser (b : Broker ω) {raw : RawHandle}
    {v : InUse (ω × List Exchange)} (h : b.TakesUser raw ⟨v.state.1, v.buffer.capacity⟩)
    (buffer : Buffer) :
    ¬ b.policy.Enlarged b.allocator ((b.observed.userCall raw).attempt v) buffer := by
  obtain ⟨hanswer, -⟩ := b.answer_userCall (v := v) rfl
  have hcode : b.userCode raw ⟨v.state.1, v.buffer.capacity⟩ = Win32.success :=
    userCode_eq_success_iff.mpr h
  exact SizingPolicy.not_enlarged_of_signal hanswer (congrArg Code.win32 hcode) (by decide) buffer

/-- The account of a query for the user of a token. It got no buffer and made no call; or it asked
for the user in attempt after attempt, and what the last one reported and left decides the rest. -/
inductive UserQueried (b : Broker ω) (raw : RawHandle) (s : Session (ω × List Exchange))
    (e : Effect (Session (ω × List Exchange)) (Outcome String)) : Prop where
  | unleased {f : Failure} {rest : Pool} :
      s.pool.acquire b.allocator tokenUserBytes = (.error f, rest) →
      e = ⟨.failed f, ⟨rest, s.state⟩, []⟩ → UserQueried b raw s e
  | asked {leased : Buffer} {rest : Pool} {earlier : List (Attempt (ω × List Exchange))}
      {last : Attempt (ω × List Exchange)} :
      s.pool.acquire b.allocator tokenUserBytes = (.ok leased, rest) →
      Course b.policy b.allocator (b.observed.userCall raw) ⟨leased, s.state⟩ earlier last →
      tokenUserBytes ≤ last.trial.capacity →
      last.left.buffer = last.found.buffer.overlay (b.userReply raw last.trial).written →
      last.left.state.2 = ((earlier.map Attempt.trial ++ [last.trial]).map
        (Trial.exchangeBy b.host (userRequest raw))).reverse ++ s.state.2 →
      b.UserRead raw last e.value e.state.state →
      (b.TakesUser raw last.trial →
        (b.userReply raw last.trial).returned.toNat < Layout.tokenUserBytes →
          Asked last e.value e.state.state) → UserQueried b raw s e

/-- A query for the user of a token ends. Its last call for the user is followed by one for the text
of an identifier exactly where it is taken for a success whose size fits the buffer, which a size
smaller than a token user always does; the identifier is what then stands at the start of the
buffer, be it written by that call or left from before. -/
theorem identifier_read_at_any_size (b : Broker ω) {token : Handle (ω × List Exchange)}
    {raw : RawHandle} (htoken : token.borrow = .ok raw) (s : Session (ω × List Exchange)) :
    ∃ e, b.observed.tokenUser token s = some e ∧ b.UserQueried raw s e := by
  have hcalls : ∀ u, (b.observed.userCall raw u).state.state =
      (b.host.observed.perform (userRequest raw u.buffer.capacity) u.state).2 := by
    intro u
    exact congrArg (fun e => e.state.state) (b.observed.userCall_apply raw rfl)
  rw [tokenUser, borrowing, htoken]
  obtain ⟨e, he, hrun⟩ := Session.exists_singleRun b.policy b.allocator tokenUserBytes
    b.observed.decodeUser (b.observed.userCall_neverShrinks raw) s
  refine ⟨e, he, ?_⟩
  rcases hrun with ⟨f, rest, hlease, hended⟩ |
    ⟨leased, rest, earlier, v, decoded, hlease, hrun, hroom⟩
  · exact .unleased hlease hended
  · have hfits : Layout.tokenUserBytes ≤ v.buffer.capacity := Nat.le_trans (by decide) hroom
    have hread := b.userRead_of_verdict rfl hfits hrun.verdict
    obtain ⟨-, hleft⟩ := b.answer_userCall (v := v) rfl
    obtain ⟨w, -, -, hstate⟩ := hrun.course.askedInTurn hcalls
    exact .asked hlease hrun.course hroom hleft (congrArg Prod.snd hstate) hread
      (hread.asked_of_short hfits)

/-- Four bytes are reported and none written: what is asked for is the text of what the buffer
held. -/
theorem identifier_read_at_any_size_unwritten :
    let b : Broker HostScript := ⟨HostScript.host 0, ⟨fun _ => true⟩, {}⟩
    let token := b.observed.host.own .kernelObject 119
    token.borrow = .ok 119 ∧
      ∃ e, b.observed.tokenUser token ⟨⟨{}, []⟩, ({ answers := [{ returned := 4 }] }, [])⟩ =
        some e ∧ ∃ x ∈ e.state.state.2, ∃ identifier, x.request = .identifierText identifier := by
  intro b token
  have htoken : token.borrow = .ok 119 := rfl
  have htaken : ∀ n, b.TakesUser 119 ⟨{ answers := [{ returned := 4 }] }, n⟩ := fun _ => .inl rfl
  have hreturned : ∀ n, (b.userReply 119 ⟨{ answers := [{ returned := 4 }] }, n⟩).returned = 4 :=
    fun _ => rfl
  obtain ⟨e, he, hqueried⟩ := identifier_read_at_any_size b htoken
    ⟨⟨{}, []⟩, ({ answers := [{ returned := 4 }] }, [])⟩
  refine ⟨htoken, e, he, ?_⟩
  cases hqueried with
  | unleased hlease _ => cases hlease
  | @asked leased _ _ _ _ hcourse _ _ _ _ hasked =>
    cases hcourse with
    | last _ _ =>
      have hshort : (b.userReply 119
          ⟨{ answers := [{ returned := 4 }] }, leased.capacity⟩).returned.toNat <
          Layout.tokenUserBytes := by
        rw [hreturned]
        decide
      obtain ⟨⟨reply, later, hcalls⟩, -⟩ := hasked (htaken leased.capacity) hshort
      rw [hcalls]
      exact ⟨_, List.mem_append_right later List.mem_cons_self, _, rfl⟩
    | again _ hgrown _ => exact absurd hgrown (b.not_enlarged_of_takesUser (htaken _) _)

/-- Four bytes are reported of a token's user, less than the address in it takes: the text of what
stands there is asked for and returned. -/
theorem short_user_read :
    let b : Broker HostScript := ⟨HostScript.host 0, ⟨fun _ => true⟩, {}⟩
    let script : HostScript := { answers := [
      { returned := 4, identifier := some ⟨#[1, 5, 0, 0, 0, 0, 0, 5]⟩ },
      { text := some ⟨#[0x53, 0, 0x2D, 0, 0x31, 0, 0x2D, 0, 0x35, 0, 0x2D, 0, 0x31, 0, 0x38, 0]⟩ },
      {}] }
    let limits : PoolLimits := { maxSlots := 4 }
    4 < Layout.tokenUserBytes ∧
      ∃ (e : Effect (Session (HostScript × List Exchange)) (Outcome String)) (written : ByteArray)
        (identifier text : Address),
        b.observed.tokenUser (b.observed.host.own .kernelObject 119)
            ⟨⟨limits, []⟩, (script, [])⟩ = some e ∧
          e.value = .returned "S-1-5-18" ∧
          e.state.state.2 = [⟨.localFree text.toInt64, (0 : RawHandle)⟩,
            ⟨.identifierText identifier, (⟨true, text⟩ : IdentifierReply)⟩,
            ⟨.tokenInformation 119 userInformation ⟨32⟩ 32,
              (⟨true, 4, written⟩ : TokenReply)⟩] := by
  intro b script limits
  let leased : Buffer := Buffer.empty.extend 32 (by decide)
  have hcapacity : leased.capacity = 32 := Buffer.capacity_extend_empty 32 (by decide)
  have hlease : Pool.acquire ⟨fun _ => true⟩ tokenUserBytes ⟨limits, []⟩ =
      (.ok leased, ⟨limits, []⟩) := rfl
  have htaken : b.TakesUser 119 ⟨script, leased.capacity⟩ := by
    rw [hcapacity]
    exact .inl rfl
  have hroom : Layout.tokenUserBytes ≤ leased.capacity := by
    rw [hcapacity]
    decide
  have hfits : (b.userReply 119 ⟨script, leased.capacity⟩).returned.toNat ≤ leased.capacity := by
    rw [hcapacity]
    decide
  have hcourse : Course b.policy b.allocator (b.observed.userCall 119)
      ⟨leased, (script, [])⟩ [] _ := .last _ (b.not_enlarged_of_takesUser htaken)
  obtain ⟨e, decoded, he, hrun⟩ := Session.SingleRun.exists_of_course
    (s := ⟨⟨limits, []⟩, (script, [])⟩) b.observed.decodeUser hlease hcourse
  have hread := b.userRead_of_verdict (v := ⟨leased, (script, [])⟩) rfl hroom hrun.verdict
  obtain ⟨hvalue, hstate⟩ := hread.eq_of_fits htaken hfits
  have happly := b.observed.userCall_apply 119 (u := InUse.clear ⟨leased, (script, [])⟩)
    (t := ⟨(script, []), 32⟩) (congrArg (Trial.mk (script, [])) hcapacity.symm)
  have hleft : ((b.observed.userCall 119).attempt ⟨leased, (script, [])⟩).left.state =
      Trial.leftBy b.observed.host (userRequest 119) ⟨(script, []), 32⟩ :=
    congrArg (fun e => e.state.state) happly
  rw [hleft] at hvalue hstate
  -- The script answers the same whatever identifier it is asked for.
  generalize Layout.addressAt _ 0 = identifier at hvalue hstate
  let blocks : Array ByteArray := #[⟨#[1, 5, 0, 0, 0, 0, 0, 5]⟩,
    ⟨#[0x53, 0, 0x2D, 0, 0x31, 0, 0x2D, 0, 0x35, 0, 0x2D, 0, 0x31, 0, 0x38, 0, 0, 0]⟩]
  have htext : (HostScript.memory ⟨[], 0, blocks, []⟩).text (HostScript.addressOf 1) =
      "S-1-5-18" := by decide +kernel
  refine ⟨by decide, e, (b.userReply 119 ⟨script, 32⟩).written, identifier,
    HostScript.addressOf 1, he, ?_, (congrArg Prod.snd hstate).trans rfl⟩
  rw [hvalue, ← htext]
  rfl

end Broker

end NativeResource

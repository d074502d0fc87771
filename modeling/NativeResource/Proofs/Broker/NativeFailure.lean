import NativeResource.Proofs.Broker.Conduct
import NativeResource.Proofs.Broker.Value
import NativeResource.Proofs.Pool.Refusal
import NativeResource.Proofs.Sizing.Counting
/-!
What becomes of a native call that failed. Its failure is told on by the last error alone. An error
other than "too small" ends the query with that error, and nothing is decoded; but a failure that
left no error is taken for a success, and what the call left is decoded.
-/
namespace NativeResource

variable {σ ω α : Type} {p : SizingPolicy} {alloc : Allocator}

theorem Buffer.text_of_length {b : Buffer} (h : b.length = 0) : b.text = "" := by
  rw [text, units, firstUnits, charLength, h]
  rfl

namespace Session

theorem Verdict.failed_of_signal {decode : Decoder σ α} {last : Attempt σ} {outcome : Outcome α}
    {t : σ} {decoded : List (Buffer × Nat)} {a : Answer}
    (h : Verdict p alloc decode last outcome t decoded) (ha : last.answer = some a)
    (hs : a.code.signal ≠ .success)
    (hfits : a.code.signal = .moreEntries → a.size ≤ last.left.buffer.capacity) :
    decoded = [] ∧ t = last.left.state ∧ ∃ f, outcome = .failed f ∧
      (a.code.signal ≠ .insufficientBuffer → f.code = some a.code) ∧
      (a.code.signal = .insufficientBuffer → f.kind = .outOfMemory) := by
  cases h with
  | decoded ha' hs' _ _ _ =>
    cases ha.symm.trans ha'
    exact absurd hs' hs
  | tooLong ha' hs' hlong _ _ =>
    cases ha.symm.trans ha'
    rcases hs' with hs' | hs'
    · exact absurd hs' hs
    · have := hfits hs'
      omega
  | more ha' hs' _ _ hcode | exhausted ha' hs' _ hcode | reported ha' hs' _ hcode =>
    cases ha.symm.trans ha'
    refine ⟨rfl, rfl, _, rfl, fun _ => hcode, ?_⟩
    intro hi
    rw [hi] at hs'
    cases hs'
  | refused ha' hs' _ hkind _ | unprovided ha' hs' _ _ hkind _ =>
    cases ha.symm.trans ha'
    exact ⟨rfl, rfl, _, rfl, fun hn => absurd hs' hn, fun _ => hkind⟩
  | unwound ha' =>
    rw [ha] at ha'
    cases ha'

/-- How a counted run ends, by what its last call returned on a buffer of so many units, and by how
many bytes of room the call left. -/
structure CountedBy (units room : Nat) (returned : Option (Except Code UInt32))
    (outcome : Outcome String) : Prop where
  taken : ∀ text, outcome = .returned text →
    (∃ count, returned = some (.ok count) ∧ count.toNat < units) ∨
      ∃ code, returned = some (.error code) ∧ code.signal = .success ∧ text = ""
  counted : ∀ count, returned = some (.ok count) → count.toNat < units →
    2 * count.toNat ≤ room → ∃ text, outcome = .returned text
  short : ∀ count, returned = some (.ok count) → units ≤ count.toNat →
    ∃ f, outcome = .failed f ∧ f.kind = .outOfMemory
  unreported : ∀ code, returned = some (.error code) → code.signal = .success →
    outcome = .returned ""
  failed : ∀ code, returned = some (.error code) → code.signal ≠ .success →
    ∃ f, outcome = .failed f ∧ (code.signal ≠ .insufficientBuffer → f.code = some code)

theorem CountedBy.of_verdict {call : CountedCall σ} {v : InUse σ} {outcome : Outcome String}
    {t : σ} {decoded : List (Buffer × Nat)}
    (h : Verdict p alloc (fun b _ => pure (.returned b.text)) (call.toCall.attempt v) outcome t
      decoded) :
    CountedBy v.buffer.charCapacity (call.toCall.attempt v).left.buffer.capacity
      (call v.clear).value outcome := by
  have hanswer : ∀ r, (call v.clear).value = some r → (call.toCall.attempt v).answer =
      some (CountedCall.answer v.buffer.charCapacity r) := by
    intro r hr
    exact congrArg (Option.map (CountedCall.answer v.buffer.charCapacity)) hr
  refine ⟨?_, ?_, ?_, ?_, ?_⟩
  · intro text htext
    cases h with
    | @decoded a d ha hs _ _ hlength =>
      cases htext
      obtain ⟨r, hr, rfl⟩ := Option.map_eq_some_iff.mp ha
      cases r with
      | ok count =>
        by_cases hcount : v.buffer.charCapacity ≤ count.toNat
        · change (CountedCall.answer v.buffer.charCapacity _).code.signal = _ at hs
          rw [CountedCall.answer_of_le hcount] at hs
          cases hs
        · exact .inl ⟨count, hr, Nat.lt_of_not_le hcount⟩
      | error code => exact .inr ⟨code, hr, hs, Buffer.text_of_length hlength⟩
    | tooLong | more | exhausted | reported | refused | unprovided | unwound => cases htext
  · intro count hr hlt hroom
    have ha := hanswer _ hr
    rw [CountedCall.answer_of_lt hlt] at ha
    obtain ⟨d, -, -, -, rfl⟩ := h.decoded_of_success ha rfl hroom
    exact ⟨_, rfl⟩
  · intro count hr hle
    have ha := hanswer _ hr
    rw [CountedCall.answer_of_le hle] at ha
    obtain ⟨-, -, f, rfl, -, hkind⟩ := h.failed_of_signal ha nofun nofun
    exact ⟨f, rfl, hkind rfl⟩
  · intro code hr hs
    obtain ⟨d, -, -, hlength, rfl⟩ := h.decoded_of_success (hanswer _ hr) hs (Nat.zero_le _)
    exact congrArg Outcome.returned (Buffer.text_of_length hlength)
  · intro code hr hs
    obtain ⟨-, -, f, rfl, hcode, -⟩ := h.failed_of_signal (hanswer _ hr) hs fun _ =>
      Nat.zero_le _
    exact ⟨f, rfl, hcode⟩

/-- A run of a call that never lowers the capacity ends. It got no buffer, or its last attempt
decides how it ends, and no attempt finds less room than was asked for. -/
theorem exists_singleRun (p : SizingPolicy) (alloc : Allocator) (n : Nat) {call : Call σ}
    (decode : Decoder σ α) (hkeeps : call.NeverShrinks) (s : Session σ) :
    ∃ e, single p alloc n call decode s = some e ∧
      ((∃ f rest, s.pool.acquire alloc n = (.error f, rest) ∧
          e = ⟨.failed f, ⟨rest, s.state⟩, []⟩) ∨
        ∃ b rest earlier v decoded, s.pool.acquire alloc n = (.ok b, rest) ∧
          SingleRun p alloc n call decode s b e earlier (call.attempt v) decoded ∧
          n ≤ v.buffer.capacity) := by
  cases hacquire : s.pool.acquire alloc n with
  | mk result rest =>
    cases result with
    | error f => exact ⟨_, withLease_of_refused hacquire, .inl ⟨f, rest, rfl, rfl⟩⟩
    | ok b =>
      obtain ⟨earlier, last, hcourse⟩ := Course.exists_of_neverShrinks p alloc hkeeps ⟨b, s.state⟩
      obtain ⟨e, decoded, he, hrun⟩ := SingleRun.exists_of_course decode hacquire hcourse
      have hmem : last ∈ earlier ++ [last] := List.mem_append_right earlier List.mem_cons_self
      have hroom := hcourse.le_capacity_of_neverShrinks hkeeps last hmem
      obtain ⟨v, rfl⟩ := hcourse.exists_attempt last hmem
      have hleased := Pool.le_capacity_of_acquire hacquire
      exact ⟨e, he, .inr ⟨b, rest, earlier, v, decoded, rfl, hrun, Nat.le_trans hleased hroom⟩⟩

end Session

/-! ### Native calls in turn -/

namespace Trial

variable (host : Host ω) (ask : Nat → Request) (t : Trial ω)

def exchangeBy : Exchange := ⟨ask t.capacity, (host.perform (ask t.capacity) t.before).1⟩

def leftBy : ω := (host.perform (ask t.capacity) t.before).2

def errorBy : UInt32 := host.lastError (t.leftBy host ask)

end Trial

inductive AskedInTurn (host : Host ω) (ask : Nat → Request) : ω → List (Trial ω) → ω → Prop where
  | nil (w : ω) : AskedInTurn host ask w [] w
  | cons (t : Trial ω) {rest : List (Trial ω)} {w : ω} :
      AskedInTurn host ask (t.leftBy host ask) rest w →
      AskedInTurn host ask t.before (t :: rest) w

theorem AskedInTurn.before_eq {host : Host ω} {ask : Nat → Request} {w w' : ω} {t : Trial ω}
    {rest : List (Trial ω)} (h : AskedInTurn host ask w (t :: rest) w') : t.before = w := by
  cases h
  rfl

def Attempt.trial (x : Attempt (ω × List Exchange)) : Trial ω :=
  ⟨x.found.state.1, x.found.buffer.capacity⟩

/-- A call that asks an observed host once makes one exchange for each attempt of its course. -/
theorem Course.askedInTurn {host : Host ω} {ask : Nat → Request}
    {call : Call (ω × List Exchange)}
    (hcall : ∀ u, (call u).state.state =
      (host.observed.perform (ask u.buffer.capacity) u.state).2)
    {u : InUse (ω × List Exchange)} {earlier : List (Attempt (ω × List Exchange))}
    {last : Attempt (ω × List Exchange)} (h : Course p alloc call u earlier last) :
    ∃ w, AskedInTurn host ask u.state.1 (earlier.map Attempt.trial ++ [last.trial]) w ∧
      w = last.trial.leftBy host ask ∧
      last.left.state = (w, ((earlier.map Attempt.trial ++ [last.trial]).map
        (Trial.exchangeBy host ask)).reverse ++ u.state.2) := by
  induction h with
  | last u _ =>
    refine ⟨_, .cons (Attempt.trial (call.attempt u)) (.nil _), rfl, ?_⟩
    exact hcall u.clear
  | @again u b earlier last _ _ ih =>
    obtain ⟨w, hasked, hw, hlast⟩ := ih
    have hfirst : (call.attempt u).left.state = _ := hcall u.clear
    simp only [hfirst] at hasked hlast
    refine ⟨w, .cons (Attempt.trial (call.attempt u)) hasked, hw, ?_⟩
    rw [hlast]
    simp only [List.map_cons, List.cons_append, List.reverse_cons, List.append_assoc]
    rfl

/-- The calls by which the text of an identifier is read. -/
inductive Request.ReadsText : Request → Prop where
  | identifierText (identifier : Address) : ReadsText (.identifierText identifier)
  | localFree (text : RawHandle) : ReadsText (.localFree text)

/-- The account of a query on an observed host. It got no buffer and asked for nothing, or it made
its calls: each but the last one was to be repeated, the last one decided, and after it none were
made but those that read a text. -/
inductive Queried (host : Host ω) (ask : Nat → Request) (repeats : Trial ω → Prop)
    (decides : Trial ω → Outcome String → List Exchange → Prop) (w : ω × List Exchange)
    (e : Effect (Session (ω × List Exchange)) (Outcome String)) : Prop where
  | unleased {f : Failure} : e.value = .failed f → f.kind = .outOfMemory → e.state.state = w →
      Queried host ask repeats decides w e
  | asked {earlier : List (Trial ω)} {last : Trial ω} {after : ω} {later : List Exchange} :
      AskedInTurn host ask w.1 (earlier ++ [last]) after →
      e.state.state.2 =
        later ++ (((earlier ++ [last]).map (Trial.exchangeBy host ask)).reverse ++ w.2) →
      (∀ x ∈ later, x.request.ReadsText) → (∀ t ∈ earlier, repeats t) →
      decides last e.value later → Queried host ask repeats decides w e

/-- A query ends, and what its last attempt decides it decides for the query. -/
theorem exists_queried {host : Host ω} {ask : Nat → Request} {n : Nat}
    {repeats : Trial ω → Prop} {decides : Trial ω → Outcome String → List Exchange → Prop}
    {call : Call (ω × List Exchange)} {decode : Decoder (ω × List Exchange) String}
    (hkeeps : call.NeverShrinks)
    (hcall : ∀ u, (call u).state.state =
      (host.observed.perform (ask u.buffer.capacity) u.state).2)
    (hrepeats : ∀ v a, (call.attempt v).answer = some a →
      a.code.signal = .insufficientBuffer → repeats (call.attempt v).trial)
    (hdecides : ∀ v outcome t decoded,
      Session.Verdict p alloc decode (call.attempt v) outcome t decoded →
      ∃ later, t.2 = later ++ (call.attempt v).left.state.2 ∧
        (∀ x ∈ later, x.request.ReadsText) ∧ decides (call.attempt v).trial outcome later)
    (s : Session (ω × List Exchange)) :
    ∃ e, Session.single p alloc n call decode s = some e ∧
      Queried host ask repeats decides s.state e := by
  obtain ⟨e, he, ⟨f, rest, hacquire, rfl⟩ | ⟨b, rest, earlier, v, decoded, -, hrun, -⟩⟩ :=
    Session.exists_singleRun p alloc n decode hkeeps s
  · exact ⟨_, he, .unleased rfl (Pool.refused_of_acquire hacquire).kind rfl⟩
  · have hcourse := hrun.course
    obtain ⟨later, hlater, hreads, hdecided⟩ := hdecides v _ _ _ hrun.verdict
    obtain ⟨w, hasked, -, hleft⟩ := hcourse.askedInTurn hcall
    refine ⟨e, he, .asked hasked ?_ hreads ?_ hdecided⟩
    · rw [hlater, hleft]
    · intro t ht
      obtain ⟨x, hx, rfl⟩ := List.mem_map.mp ht
      obtain ⟨u, rfl⟩ := hcourse.exists_attempt x (List.mem_append_left _ hx)
      obtain ⟨-, a, ha, hs, -⟩ := hcourse.enlarged_of_mem _ hx
      exact hrepeats u a ha hs

/-! ### Paths -/

/-- How a path query ends, by the reply to its last call and the error that this left. -/
structure PathReply.Decides (reply : PathReply) (lastError : UInt32) (room : Nat)
    (outcome : Outcome String) : Prop where
  taken : ∀ text, outcome = .returned text →
    (reply.count ≠ 0 ∧ reply.count.toNat < room / 2) ∨
      (reply.count = 0 ∧ lastError = Win32.success ∧ text = "")
  counted : reply.count ≠ 0 → reply.count.toNat < room / 2 → ∃ text, outcome = .returned text
  short : reply.count ≠ 0 → room / 2 ≤ reply.count.toNat →
    ∃ f, outcome = .failed f ∧ f.kind = .outOfMemory
  unreported : reply.count = 0 → lastError = Win32.success → outcome = .returned ""
  failed : reply.count = 0 → lastError ≠ Win32.success →
    ∃ f, outcome = .failed f ∧ ((Code.win32 lastError).signal ≠ .insufficientBuffer →
      f.code = some (.win32 lastError))

def PathReply.AsksForRoom (reply : PathReply) (lastError : UInt32) (room : Nat) : Prop :=
  if reply.count = 0 then (Code.win32 lastError).signal = .insufficientBuffer
  else room / 2 ≤ reply.count.toNat

theorem PathReply.asksForRoom_of_signal {reply : PathReply} {lastError : UInt32} {room : Nat}
    (h : (CountedCall.answer (room / 2) (if reply.count = 0 then .error (.win32 lastError)
      else .ok reply.count)).code.signal = .insufficientBuffer) :
    reply.AsksForRoom lastError room := by
  unfold AsksForRoom
  by_cases hzero : reply.count = 0
  · rw [if_pos hzero] at h ⊢
    exact h
  · rw [if_neg hzero] at h ⊢
    apply Nat.le_of_not_lt
    intro hlt
    rw [CountedCall.answer_of_lt hlt] at h
    cases h

theorem PathReply.decides_of_counted {reply : PathReply} {lastError : UInt32} {room : Nat}
    {outcome : Outcome String}
    (h : Session.CountedBy (room / 2) room
      (some (if reply.count = 0 then .error (.win32 lastError) else .ok reply.count)) outcome) :
    reply.Decides lastError room outcome := by
  by_cases hzero : reply.count = 0
  · rw [if_pos hzero] at h
    refine ⟨?_, ?_, ?_, ?_, ?_⟩
    · intro text htext
      rcases h.taken text htext with ⟨count, hcount, -⟩ | ⟨code, hcode, hs, hempty⟩
      · cases hcount
      · cases hcode
        exact .inr ⟨hzero, Code.signal_win32_eq_success_iff.mp hs, hempty⟩
    · intro hn
      exact absurd hzero hn
    · intro hn
      exact absurd hzero hn
    · intro _ hs
      exact h.unreported _ rfl (Code.signal_win32_eq_success_iff.mpr hs)
    · intro _ hs
      exact h.failed _ rfl (mt Code.signal_win32_eq_success_iff.mp hs)
  · rw [if_neg hzero] at h
    refine ⟨?_, ?_, ?_, ?_, ?_⟩
    · intro text htext
      rcases h.taken text htext with ⟨count, hcount, hlt⟩ | ⟨code, hcode, -⟩
      · cases hcount
        exact .inl ⟨hzero, hlt⟩
      · cases hcode
    · intro _ hlt
      exact h.counted _ rfl hlt (by omega)
    · intro _ hle
      exact h.short _ rfl hle
    · intro hz
      exact absurd hz hzero
    · intro hz
      exact absurd hz hzero

namespace Broker

def pathRequest (raw : RawHandle) (capacity : Nat) : Request :=
  .finalPathName raw ⟨capacity⟩ (sizeArgument (capacity / 2)) 0

def pathReply (b : Broker ω) (raw : RawHandle) (t : Trial ω) : PathReply :=
  (b.host.perform (pathRequest raw t.capacity) t.before).1

theorem pathCall_apply (b : Broker ω) (raw : RawHandle) {u : InUse ω} {t : Trial ω}
    (ht : t = ⟨u.state, u.buffer.capacity⟩) :
    b.pathCall raw u =
      ⟨some (if (b.pathReply raw t).count = 0 then
            .error (.win32 (t.errorBy b.host (pathRequest raw)))
          else .ok (b.pathReply raw t).count),
        ⟨u.buffer.overlay (b.pathReply raw t).written, t.leftBy b.host (pathRequest raw)⟩,
        []⟩ := by
  subst ht
  have hfill : ∀ (reply : PathReply) (w : ω),
      (if reply.count = 0 then (do return (reply.written, .error (← b.host.lastCode)))
        else return (reply.written, .ok reply.count) :
          Action ω (ByteArray × Except Code UInt32)) w =
      ⟨(reply.written,
        if reply.count = 0 then .error (.win32 (b.host.lastError w)) else .ok reply.count),
        w, []⟩ := by
    intro reply w
    by_cases hzero : reply.count = 0
    · rw [if_pos hzero, if_pos hzero]
      rfl
    · rw [if_neg hzero, if_neg hzero]
      rfl
  exact congrArg (fun e : Effect ω (ByteArray × Except Code UInt32) =>
    (⟨some e.value.2, ⟨u.buffer.overlay e.value.1, e.state⟩, e.log⟩ : Effect (InUse ω) _))
      (hfill _ _)

theorem pathCall_neverShrinks (b : Broker ω) (raw : RawHandle) :
    (b.pathCall raw).toCall.NeverShrinks := by
  intro u
  have happly := b.pathCall_apply raw (u := u) rfl
  change _ ≤ (b.pathCall raw u).state.buffer.capacity
  rw [happly, Buffer.capacity_overlay]

theorem finalPath_queried (b : Broker ω) {file : Handle (ω × List Exchange)} {raw : RawHandle}
    (hfile : file.borrow = .ok raw) (s : Session (ω × List Exchange)) :
    ∃ e, b.observed.finalPath file s = some e ∧
      Queried b.host (pathRequest raw)
        (fun t => (b.pathReply raw t).AsksForRoom (t.errorBy b.host (pathRequest raw)) t.capacity)
        (fun t outcome later => later = [] ∧
          (b.pathReply raw t).Decides (t.errorBy b.host (pathRequest raw)) t.capacity outcome)
        s.state e := by
  rw [finalPath, borrowing, hfile]
  apply exists_queried (b.observed.pathCall_neverShrinks raw)
  · intro u
    have happly := b.observed.pathCall_apply raw (u := u) rfl
    exact congrArg (fun e => e.state.state) happly
  · intro v a ha hs
    have hmapped : (b.observed.pathCall raw v.clear).value.map
        (CountedCall.answer v.buffer.charCapacity) = some a := ha
    obtain ⟨r, hr, rfl⟩ := Option.map_eq_some_iff.mp hmapped
    rw [b.observed.pathCall_apply raw (u := v.clear) rfl] at hr
    cases hr
    exact PathReply.asksForRoom_of_signal hs
  · intro v outcome t decoded hv
    have hcounted := Session.CountedBy.of_verdict hv
    have happly := b.observed.pathCall_apply raw (u := v.clear) rfl
    rw [hv.state_eq fun _ _ _ => rfl]
    refine ⟨[], rfl, List.forall_mem_nil _, rfl, ?_⟩
    apply PathReply.decides_of_counted
    have hroom : ((b.observed.pathCall raw).toCall.attempt v).left.buffer.capacity =
        v.buffer.capacity := by
      change (b.observed.pathCall raw v.clear).state.buffer.capacity = _
      rw [happly, Buffer.capacity_overlay]
      rfl
    rw [hroom, happly] at hcounted
    exact hcounted

end Broker

/-! ### Users of tokens -/

theorem Layout.addressAt_extract_zero (d : ByteArray) {n : Nat} (h : 8 ≤ n) :
    addressAt (d.extract 0 n) 0 = addressAt d 0 := by
  have hbytes : ((List.range 8).map fun k => Bytes.get (d.extract 0 n) (0 + k)) =
      (List.range 8).map fun k => Bytes.get d (0 + k) := by
    refine List.map_congr_left fun k hk => ?_
    have hlt := List.mem_range.mp hk
    have hwithin : 0 + k < n := by omega
    exact Bytes.get_extract_zero d hwithin
  rw [addressAt, addressAt, hbytes]

theorem Layout.tokenUser?_of_room {b : Buffer} (h : tokenUserBytes ≤ b.capacity) :
    tokenUser? b = some (addressAt b.bytes 0) := by
  rw [tokenUser?, Buffer.header?, if_pos ⟨by decide, h⟩, Option.map_some,
    addressAt_extract_zero b.bytes (by decide)]

/-- How a user query ends, by the reply to its last call for the user, the error that this left,
and the calls made after it. -/
structure TokenReply.Decides (reply : TokenReply) (lastError : UInt32) (room : Nat)
    (outcome : Outcome String) (later : List Exchange) : Prop where
  taken : (∃ text, outcome = .returned text) ∨ later ≠ [] →
    reply.ok = true ∨ lastError = Win32.success
  decoded : reply.ok = true ∨ lastError = Win32.success → reply.returned.toNat ≤ room →
    Layout.tokenUserBytes ≤ room → later ≠ []
  failed : reply.ok = false → lastError ≠ Win32.success →
    later = [] ∧ ∃ f, outcome = .failed f ∧
      ((Code.win32 lastError).signal ≠ .insufficientBuffer → f.code = some (.win32 lastError))

def TokenReply.AsksForRoom (reply : TokenReply) (lastError : UInt32) : Prop :=
  reply.ok = false ∧ (Code.win32 lastError).signal = .insufficientBuffer

/-- A reply that is taken for a success, rightly or not, is decoded. -/
theorem TokenReply.decides_of_taken {reply : TokenReply} {lastError : UInt32} {room : Nat}
    {outcome : Outcome String} {later : List Exchange}
    (htaken : reply.ok = true ∨ lastError = Win32.success)
    (hdecoded : reply.returned.toNat ≤ room → Layout.tokenUserBytes ≤ room → later ≠ []) :
    reply.Decides lastError room outcome later := by
  refine ⟨fun _ => htaken, fun _ => hdecoded, ?_⟩
  intro hok herror
  exact absurd htaken (not_or.mpr ⟨Bool.eq_false_iff.mp hok, herror⟩)

theorem TokenReply.decides_of_failed {reply : TokenReply} {lastError : UInt32} {room : Nat}
    {f : Failure} (hfailed : ¬ (reply.ok = true ∨ lastError = Win32.success))
    (hf : (Code.win32 lastError).signal ≠ .insufficientBuffer →
      f.code = some (.win32 lastError)) :
    reply.Decides lastError room (.failed f) [] := by
  refine ⟨?_, fun htaken => absurd htaken hfailed, fun _ _ => ⟨rfl, f, rfl, hf⟩⟩
  rintro (⟨text, htext⟩ | hne)
  · cases htext
  · exact absurd rfl hne

namespace Broker

def userRequest (raw : RawHandle) (capacity : Nat) : Request :=
  .tokenInformation raw userInformation ⟨capacity⟩ (sizeArgument capacity)

def userReply (b : Broker ω) (raw : RawHandle) (t : Trial ω) : TokenReply :=
  (b.host.perform (userRequest raw t.capacity) t.before).1

def userCode (b : Broker ω) (raw : RawHandle) (t : Trial ω) : UInt32 :=
  if (b.userReply raw t).ok then Win32.success else t.errorBy b.host (userRequest raw)

theorem userCall_apply (b : Broker ω) (raw : RawHandle) {u : InUse ω} {t : Trial ω}
    (ht : t = ⟨u.state, u.buffer.capacity⟩) :
    b.userCall raw u =
      ⟨some ⟨.win32 (b.userCode raw t), (b.userReply raw t).returned.toNat⟩,
        ⟨u.buffer.overlay (b.userReply raw t).written, t.leftBy b.host (userRequest raw)⟩,
        []⟩ := by
  subst ht
  have hfill : ∀ (reply : TokenReply) (w : ω),
      (do
        let code ← if reply.ok then pure (.win32 Win32.success) else b.host.lastCode
        return (⟨reply.written, ⟨code, reply.returned.toNat⟩⟩ : Filling) : Action ω Filling) w =
      ⟨⟨reply.written, ⟨.win32 (if reply.ok then Win32.success else b.host.lastError w),
        reply.returned.toNat⟩⟩, w, []⟩ := by
    intro reply w
    cases hok : reply.ok
    · rfl
    · rfl
  exact congrArg (fun e : Effect ω Filling =>
    (⟨some e.value.answer, ⟨u.buffer.overlay e.value.written, e.state⟩, e.log⟩ :
      Effect (InUse ω) _)) (hfill _ _)

theorem state_userCall (b : Broker ω) (raw : RawHandle) (u : InUse (ω × List Exchange)) :
    (b.observed.userCall raw u).state.state =
      (b.host.observed.perform (userRequest raw u.buffer.capacity) u.state).2 :=
  congrArg (fun e => e.state.state) (b.observed.userCall_apply raw rfl)

theorem userReply_observed (b : Broker ω) (raw : RawHandle) (w : ω × List Exchange) (n : Nat) :
    b.observed.userReply raw ⟨w, n⟩ = b.userReply raw ⟨w.1, n⟩ := rfl

theorem answer_userCall (b : Broker ω) {raw : RawHandle} {v : InUse (ω × List Exchange)}
    {x : Attempt (ω × List Exchange)} (hx : x = (b.observed.userCall raw).attempt v) :
    x.answer = some ⟨.win32 (b.userCode raw x.trial), (b.userReply raw x.trial).returned.toNat⟩ ∧
      x.left.buffer = x.found.buffer.overlay (b.userReply raw x.trial).written := by
  subst hx
  have happly := b.observed.userCall_apply raw (u := v.clear) rfl
  have hleft : (b.observed.userCall raw v.clear).state.buffer = v.clear.buffer.overlay
      (b.userReply raw ⟨v.clear.state.1, v.clear.buffer.capacity⟩).written := by
    rw [happly, userReply_observed]
  exact ⟨congrArg Effect.value happly, hleft⟩

theorem userCall_neverShrinks (b : Broker ω) (raw : RawHandle) :
    (b.userCall raw).NeverShrinks := by
  intro u
  rw [b.userCall_apply raw rfl, Buffer.capacity_overlay]

theorem userCode_eq_success_iff {b : Broker ω} {raw : RawHandle} {t : Trial ω} :
    b.userCode raw t = Win32.success ↔
      (b.userReply raw t).ok = true ∨ t.errorBy b.host (userRequest raw) = Win32.success := by
  unfold userCode
  cases (b.userReply raw t).ok <;> simp

theorem userCode_of_failed {b : Broker ω} {raw : RawHandle} {t : Trial ω}
    (h : b.userCode raw t ≠ Win32.success) :
    b.userCode raw t = t.errorBy b.host (userRequest raw) := by
  unfold userCode at h ⊢
  by_cases hok : (b.userReply raw t).ok = true
  · rw [if_pos hok] at h
    exact absurd rfl h
  · rw [if_neg hok]

theorem asksForRoom_of_userCode (b : Broker ω) {raw : RawHandle} {t : Trial ω}
    (h : (Code.win32 (b.userCode raw t)).signal = .insufficientBuffer) :
    (b.userReply raw t).AsksForRoom (t.errorBy b.host (userRequest raw)) := by
  unfold userCode at h
  cases hok : (b.userReply raw t).ok with
  | true =>
    rw [if_pos hok] at h
    cases h
  | false =>
    rw [if_neg (Bool.eq_false_iff.mp hok)] at h
    exact ⟨hok, h⟩

theorem identifierText_calls (b : Broker ω) (identifier : Address) (w : ω × List Exchange) :
    ∃ (reply : IdentifierReply) (later : List Exchange),
      (identifierText b.observed.host identifier w).state.2 =
        later ++ ⟨.identifierText identifier, reply⟩ :: w.2 ∧
      ∀ y ∈ later, ∃ text, y.request = .localFree text := by
  obtain ⟨f, heq, hf⟩ := b.exists_identifierText_eq
    (P := fun r => ∃ text, r = .localFree text) (fun text => ⟨text, rfl⟩) identifier
  let reply : IdentifierReply := (b.host.perform (.identifierText identifier) w.1).1
  obtain ⟨later, hlater, hfree⟩ := hf reply
    (b.host.observed.perform (.identifierText identifier) w).2
  refine ⟨reply, later, ?_, hfree⟩
  rw [heq]
  exact hlater

theorem decodeUser_of_room (b : Broker ω) {buffer : Buffer}
    (h : Layout.tokenUserBytes ≤ buffer.capacity) (n : Nat) (w : ω) :
    (b.decodeUser buffer n w).value =
        .ofExcept (identifierText b.host (Layout.addressAt buffer.bytes 0) w).value ∧
      (b.decodeUser buffer n w).state =
        (identifierText b.host (Layout.addressAt buffer.bytes 0) w).state := by
  simp only [decodeUser, Layout.tokenUser?_of_room h]
  exact ⟨rfl, rfl⟩

theorem exists_later_of_decodeUser (b : Broker ω) (buffer : Buffer) (n : Nat)
    (w : ω × List Exchange) :
    ∃ later, (b.observed.decodeUser buffer n w).state.2 = later ++ w.2 ∧
      (∀ x ∈ later, x.request.ReadsText) ∧
      (Layout.tokenUserBytes ≤ buffer.capacity → later ≠ []) := by
  by_cases hroom : Layout.tokenUserBytes ≤ buffer.capacity
  · obtain ⟨reply, more, hmore, hfree⟩ :=
      b.identifierText_calls (Layout.addressAt buffer.bytes 0) w
    obtain ⟨-, hstate⟩ := b.observed.decodeUser_of_room hroom n w
    refine ⟨more ++ [⟨.identifierText (Layout.addressAt buffer.bytes 0), reply⟩], ?_, ?_, ?_⟩
    · rw [hstate, hmore, List.append_assoc]
      rfl
    · intro x hx
      rcases List.mem_append.mp hx with hx | hx
      · obtain ⟨text, htext⟩ := hfree x hx
        rw [htext]
        exact .localFree text
      · cases List.mem_singleton.mp hx
        exact .identifierText _
    · intro _ hnil
      exact List.cons_ne_nil _ _ (List.append_eq_nil_iff.mp hnil).2
  · obtain ⟨later, hlater, hreads⟩ :=
      b.asks_decodeUser Request.ReadsText.identifierText .localFree buffer n w
    exact ⟨later, hlater, hreads, fun h => absurd h hroom⟩

/-- The last call for the user decides the query: a success, and a failure that left no error, has
its buffer decoded, if that holds what was announced. -/
theorem decides_of_userVerdict (b : Broker ω) {raw : RawHandle} {v : InUse (ω × List Exchange)}
    {x : Attempt (ω × List Exchange)} {outcome : Outcome String} {w : ω × List Exchange}
    {decoded : List (Buffer × Nat)} (hx : x = (b.observed.userCall raw).attempt v)
    (h : Session.Verdict b.policy b.allocator b.observed.decodeUser x outcome w decoded) :
    ∃ later, w.2 = later ++ x.left.state.2 ∧ (∀ y ∈ later, y.request.ReadsText) ∧
      (b.userReply raw x.trial).Decides (x.trial.errorBy b.host (userRequest raw))
        x.trial.capacity outcome later := by
  obtain ⟨ha, hleft⟩ := b.answer_userCall hx
  have hroom : x.left.buffer.capacity = x.trial.capacity := by
    rw [hleft, Buffer.capacity_overlay]
    rfl
  by_cases hcode : b.userCode raw x.trial = Win32.success
  · have htaken := userCode_eq_success_iff.mp hcode
    have hs : (Code.win32 Win32.success).signal = .success := rfl
    rw [hcode] at ha
    cases h with
    | @decoded a d ha' _ _ hbytes _ =>
      obtain ⟨later, hlater, hreads, hasked⟩ :=
        b.exists_later_of_decodeUser d a.size x.left.state
      refine ⟨later, hlater, hreads, TokenReply.decides_of_taken htaken ?_⟩
      intro _ hlarge
      apply hasked
      rw [Buffer.capacity, hbytes]
      exact Nat.le_trans hlarge (Nat.le_of_eq hroom.symm)
    | tooLong ha' _ hlong _ _ =>
      cases ha.symm.trans ha'
      rw [hroom] at hlong
      refine ⟨[], rfl, List.forall_mem_nil _, TokenReply.decides_of_taken htaken ?_⟩
      intro hle
      exact absurd hle (Nat.not_le.mpr hlong)
    | more ha' hs' _ _ _ | exhausted ha' hs' _ _ | reported ha' hs' _ _ | refused ha' hs' _ _ _
    | unprovided ha' hs' _ _ _ _ =>
      cases ha.symm.trans ha'
      rw [hs] at hs'
      cases hs'
    | unwound ha' =>
      rw [ha] at ha'
      cases ha'
  · have hs := mt Code.signal_win32_eq_success_iff.mp hcode
    obtain ⟨-, rfl, f, rfl, hf, -⟩ := h.failed_of_signal ha hs fun hmore =>
      absurd hmore (Code.signal_win32_ne_moreEntries _)
    rw [userCode_of_failed hcode] at hf
    exact ⟨[], rfl, List.forall_mem_nil _,
      TokenReply.decides_of_failed (mt userCode_eq_success_iff.mpr hcode) hf⟩

theorem tokenUser_queried (b : Broker ω) {token : Handle (ω × List Exchange)} {raw : RawHandle}
    (htoken : token.borrow = .ok raw) (s : Session (ω × List Exchange)) :
    ∃ e, b.observed.tokenUser token s = some e ∧
      Queried b.host (userRequest raw)
        (fun t => (b.userReply raw t).AsksForRoom (t.errorBy b.host (userRequest raw)))
        (fun t outcome later =>
          (b.userReply raw t).Decides (t.errorBy b.host (userRequest raw)) t.capacity outcome
            later) s.state e := by
  rw [tokenUser, borrowing, htoken]
  apply exists_queried (b.observed.userCall_neverShrinks raw)
  · exact b.state_userCall raw
  · intro v a ha hs
    cases ha.symm.trans (congrArg Effect.value (b.observed.userCall_apply raw (u := v.clear) rfl))
    exact b.asksForRoom_of_userCode hs
  · intro v outcome w decoded hv
    exact b.decides_of_userVerdict rfl hv

/-! ### Failures taken for results -/

/-- Every query of a path or of a token's user ends, and every call in it but the last one asked for
more room than it was given. If that last call failed, the query returns a result or goes on to
read one only where the call left no error; with any other error it fails with that error, or
for want of memory. Counted calls in general are taken by their code in the same way. -/
theorem failure_taken_only_without_error (b : Broker ω) (s : Session (ω × List Exchange)) :
    (∀ (file : Handle (ω × List Exchange)) (raw : RawHandle), file.borrow = .ok raw →
      ∃ e, b.observed.finalPath file s = some e ∧
        Queried b.host (pathRequest raw)
          (fun t =>
            (b.pathReply raw t).AsksForRoom (t.errorBy b.host (pathRequest raw)) t.capacity)
          (fun t outcome later => later = [] ∧
            (b.pathReply raw t).Decides (t.errorBy b.host (pathRequest raw)) t.capacity outcome)
          s.state e) ∧
    (∀ (token : Handle (ω × List Exchange)) (raw : RawHandle), token.borrow = .ok raw →
      ∃ e, b.observed.tokenUser token s = some e ∧
        Queried b.host (userRequest raw)
          (fun t => (b.userReply raw t).AsksForRoom (t.errorBy b.host (userRequest raw)))
          (fun t outcome later =>
            (b.userReply raw t).Decides (t.errorBy b.host (userRequest raw)) t.capacity outcome
              later) s.state e) ∧
    ∀ {σ : Type} (chars : Nat) (call : CountedCall σ) (r : Session σ)
      (e : Effect (Session σ) (Outcome String)),
      Session.counted b.policy b.allocator chars call r = some e →
        (∃ f rest, r.pool.acquire b.allocator (saturate (chars * Buffer.unitBytes)) =
            (.error f, rest) ∧ e.value = .failed f) ∨
        ∃ buffer rest earlier v,
          r.pool.acquire b.allocator (saturate (chars * Buffer.unitBytes)) =
            (.ok buffer, rest) ∧
          Course b.policy b.allocator call.toCall ⟨buffer, r.state⟩ earlier
            (call.toCall.attempt v) ∧
          Session.CountedBy v.buffer.charCapacity (call v.clear).state.buffer.capacity
            (call v.clear).value e.value := by
  refine ⟨?_, ?_, ?_⟩
  · intro file raw hfile
    exact b.finalPath_queried hfile s
  · intro token raw htoken
    exact b.tokenUser_queried htoken s
  · intro σ chars call r e he
    cases hacquire : r.pool.acquire b.allocator (saturate (chars * Buffer.unitBytes)) with
    | mk result rest =>
      cases result with
      | error f =>
        rw [Session.counted, Session.single, Session.withLease_of_refused hacquire] at he
        cases he
        exact .inl ⟨f, rest, rfl, rfl⟩
      | ok buffer =>
        obtain ⟨earlier, last, hcourse⟩ := (Session.single_ends_iff hacquire).mp ⟨e, he⟩
        obtain ⟨decoded, hrun⟩ := Session.SingleRun.of_course hacquire hcourse he
        obtain ⟨v, rfl⟩ := hcourse.exists_attempt last
          (List.mem_append_right earlier List.mem_cons_self)
        exact .inr ⟨buffer, rest, earlier, v, rfl, hcourse, .of_verdict hrun.verdict⟩

theorem failure_taken_only_without_error_denied :
    let b : Broker HostScript := ⟨HostScript.host 0, ⟨fun _ => true⟩, {}⟩
    let token := b.observed.host.own .kernelObject 68
    token.borrow = .ok 68 ∧
      ∃ e, b.observed.tokenUser token
          ⟨⟨{}, []⟩, ({ answers := [{ ok := false, lastError := some 5 }] }, [])⟩ = some e ∧
        ∀ text, e.value ≠ .returned text := by
  intro b token
  have htoken : token.borrow = .ok 68 := rfl
  obtain ⟨-, husers, -⟩ := failure_taken_only_without_error b
    ⟨⟨{}, []⟩, ({ answers := [{ ok := false, lastError := some 5 }] }, [])⟩
  obtain ⟨e, he, hqueried⟩ := husers token 68 htoken
  refine ⟨htoken, e, he, ?_⟩
  intro text htext
  cases hqueried with
  | unleased hfailed =>
    rw [htext] at hfailed
    cases hfailed
  | @asked earlier last after later hasked _ _ hrepeats hdecides =>
    cases earlier with
    | nil =>
      have hbefore := hasked.before_eq
      obtain ⟨before, capacity⟩ := last
      cases hbefore
      rcases hdecides.taken (.inl ⟨text, htext⟩) with hok | herror
      · cases hok
      · cases herror
    | cons first rest =>
      have hrepeated := hrepeats first List.mem_cons_self
      have hbefore := hasked.before_eq
      obtain ⟨before, capacity⟩ := first
      cases hbefore
      cases hrepeated.2

/-- The path of a file is asked for once; the call fails and leaves no error, and the path returned
is the empty one. -/
theorem failure_without_error_returned :
    let b : Broker HostScript := ⟨HostScript.host 0, ⟨fun _ => true⟩, {}⟩
    ∃ (e : Effect (Session (HostScript × List Exchange)) (Outcome String)) (into : Destination)
      (chars : UInt32) (written : ByteArray),
      b.observed.finalPath (b.observed.host.own .file 68)
          ⟨⟨{}, []⟩, ({ answers := [{ result := 0, lastError := some 0 }] }, [])⟩ = some e ∧
        e.value = .returned "" ∧
        e.state.state.2 = [⟨.finalPathName 68 into chars 0, (⟨written, 0⟩ : PathReply)⟩] := by
  intro b
  let script : HostScript := { answers := [{ result := 0, lastError := some 0 }] }
  let leased : Buffer := Buffer.empty.extend 520 (by decide)
  have hlease : Pool.acquire ⟨fun _ => true⟩ (saturate (pathChars * Buffer.unitBytes))
      ⟨{}, []⟩ = (.ok leased, ⟨{}, []⟩) := rfl
  have happly := b.observed.pathCall_apply 68 (u := InUse.clear ⟨leased, (script, [])⟩) rfl
  have hanswer : ((b.observed.pathCall 68).toCall.attempt ⟨leased, (script, [])⟩).answer =
      some ⟨.win32 Win32.success, 0⟩ :=
    congrArg (fun e => e.value.map (CountedCall.answer leased.charCapacity)) happly
  have hcourse : Course b.policy b.allocator (b.observed.pathCall 68).toCall
      ⟨leased, (script, [])⟩ [] _ :=
    .last _ (SizingPolicy.not_enlarged_of_signal hanswer rfl (by decide))
  obtain ⟨e, decoded, he, hrun⟩ := Session.SingleRun.exists_of_course
    (s := ⟨⟨{}, []⟩, (script, [])⟩) decodeText hlease hcourse
  have hcounted := Session.CountedBy.of_verdict hrun.verdict
  have hstate := hrun.verdict.state_eq fun _ _ _ => rfl
  let chars := sizeArgument (leased.capacity / 2)
  refine ⟨e, ⟨leased.capacity⟩, chars, HostScript.fillRoom (chars.toNat * 2) .empty, he, ?_, ?_⟩
  · exact hcounted.unreported (.win32 Win32.success) (congrArg Effect.value happly) rfl
  · rw [hstate]
    exact congrArg (fun e => e.state.state.2) happly

end Broker

end NativeResource

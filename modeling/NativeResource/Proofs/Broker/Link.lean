import NativeResource.Proofs.Broker.Room
import NativeResource.Proofs.Broker.Subkeys
import NativeResource.Proofs.Code.Consistency
import NativeResource.Proofs.Pool.Exchange
/-!
Reading the target of a symbolic link. The room for it is told in 16 bits and in whole units, so a
buffer larger than that is offered in part only; but no target is longer than what the room can
say, and a buffer that holds the target is always told to have room for it. A second call is only
made after one that told how much the target needs.
-/
namespace NativeResource

variable {σ ω : Type}

namespace Host

def linkReply (host : Host ω) (link : RawHandle) (into : Destination) (room : UInt16) (w : ω) :
    LinkReply :=
  (host.perform (.querySymbolicLink link into 0 room) w).1

/-- A link with this target, whatever was asked before. The target is written if the room that is
told takes it; if it does not, its length is told. -/
structure LinksTo (host : Host ω) (link : RawHandle) (target : List UInt16) : Prop where
  short : ∀ into room w, room.toNat < 2 * target.length →
    (host.linkReply link into room w).status = NtStatus.bufferTooSmall ∧
      (host.linkReply link into room w).returned.toNat = 2 * target.length
  held : ∀ into room w, 2 * target.length ≤ room.toNat →
    (Code.ntStatus (host.linkReply link into room w).status).signal = .success ∧
      (host.linkReply link into room w).length.toNat = 2 * target.length ∧
      (host.linkReply link into room w).written.extract 0 (2 * target.length) =
        Utf16.block target

end Host

namespace Broker

def linkRequest (link : RawHandle) (capacity : Nat) : Request :=
  .querySymbolicLink link ⟨capacity⟩ 0 (linkRoom capacity)

variable {b : Broker ω} {link : RawHandle} {target : List UInt16}

theorem linkCall_apply (b : Broker ω) (link : RawHandle) {u : InUse (ω × List Exchange)}
    {reply : LinkReply}
    (hreply : reply = b.host.linkReply link u.buffer.destination (linkRoom u.buffer.capacity)
      u.state.1) :
    b.observed.linkCall link u =
      ⟨some ⟨.ntStatus reply.status,
          if (Code.ntStatus reply.status).isSuccess then reply.length.toNat
          else reply.returned.toNat⟩,
        ⟨u.buffer.overlay reply.written,
          (b.host.observed.perform (linkRequest link u.buffer.capacity) u.state).2⟩,
        []⟩ := by
  subst hreply
  rfl

theorem linkCall_short (h : b.host.LinksTo link target) {u : InUse (ω × List Exchange)}
    (hshort : u.buffer.capacity < 2 * target.length) :
    (b.observed.linkCall link u).value =
      some ⟨.ntStatus NtStatus.bufferTooSmall, 2 * target.length⟩ := by
  have hroom : (linkRoom u.buffer.capacity).toNat < 2 * target.length := by
    rw [toNat_linkRoom]
    omega
  obtain ⟨hstatus, hreturned⟩ := h.short u.buffer.destination _ u.state.1 hroom
  rw [b.linkCall_apply link rfl, hstatus, hreturned]
  rfl

theorem le_linkRoom {capacity : Nat} (hlength : 2 * target.length ≤ 65534)
    (hfits : 2 * target.length ≤ capacity) : 2 * target.length ≤ (linkRoom capacity).toNat := by
  -- What is cut is an odd last byte and all past 65535; the target needs neither.
  rw [toNat_linkRoom]
  omega

theorem needs_linkCall (h : b.host.LinksTo link target) (hlength : 2 * target.length ≤ 65534) :
    (b.observed.linkCall link).Needs (2 * target.length) (Utf16.block target) := by
  constructor
  · intro u hshort
    refine ⟨_, linkCall_short h hshort, rfl, Nat.le_refl _, ?_⟩
    rw [b.linkCall_apply link rfl, Buffer.capacity_overlay]
  · intro u hfits
    obtain ⟨hsignal, hcount, hwritten⟩ :=
      h.held u.buffer.destination _ u.state.1 (le_linkRoom hlength hfits)
    have hsuccess := (Code.signal_eq_success_iff.mp hsignal).1
    rw [b.linkCall_apply link rfl, if_pos hsuccess, hcount]
    rw [← Utf16.size_block] at hwritten hfits
    have hleft := Buffer.extract_overlay_of_extract hwritten hfits
    exact ⟨_, rfl, hsignal, (Utf16.size_block target).symm, hleft⟩

variable {l : Handle (ω × List Exchange)}

/-- Every target that a link can have is returned as far as the ceiling leaves room for it, unit by
unit and whatever buffer the pool lends, also one larger than the room that a call can be told of.
At most two calls are made. -/
theorem symbolicLinkTarget_reads_every_target (hlink : l.borrow = .ok link)
    (hlength : 2 * target.length ≤ 65534) (hceiling : 2 * target.length ≤ b.policy.ceiling)
    (halloc : b.allocator.Serves (max b.policy.ceiling linkTargetBytes))
    (h : b.host.LinksTo link target) (s : Session (ω × List Exchange)) :
    ∃ (e : Effect (Session (ω × List Exchange)) (Outcome String)) (rooms : List Nat)
        (made : List Exchange),
      b.observed.symbolicLinkTarget l s = some e ∧ e.value = .returned (Utf16.decode target) ∧
      s.Made e.state made ∧ made.map Exchange.request = rooms.map (linkRequest link) ∧
      rooms.length ≤ 2 := by
  have hneeds := needs_linkCall h hlength
  obtain ⟨buffer, rest, hlease⟩ :=
    Pool.exists_acquire (halloc.mono (Nat.le_max_right _ linkTargetBytes)) s.pool
  obtain ⟨earlier, v, hcourse, hfits⟩ := hneeds.exists_course_served
    (halloc.mono (Nat.le_max_left b.policy.ceiling _)) ⟨buffer, s.state⟩ (.inr hceiling)
  obtain ⟨e, d, he, hcontents, hvalue⟩ :=
    Session.exists_of_served decodeText hneeds hlease hcourse hfits
  have hrun : b.observed.symbolicLinkTarget l s = some e := by
    rw [symbolicLinkTarget, borrowing, hlink]
    exact he
  have hasks : ∀ u, (b.observed.linkCall link u).state.state =
      (b.host.observed.perform (linkRequest link u.buffer.capacity) u.state).2 := fun _ => rfl
  have hmade := Session.made_of_course hasks (fun _ _ _ => rfl) hlease hcourse he
  refine ⟨e, _, _, hrun, ?_, hmade, Attempt.map_request_exchangeBy b.host _ _, ?_⟩
  · have htext : e.value = .returned d.text := hvalue
    rw [htext, Buffer.text, Buffer.units_of_contents hcontents]
  · have htwice : earlier.length ≤ 1 := by
      apply hneeds.length_le_one _ hcourse
      intro u a hshort ha
      rw [linkCall_short h hshort] at ha
      cases ha
      rfl
    simp only [List.length_map, List.length_append, List.length_singleton]
    omega

end Broker

def Host.linking (target : List UInt16) : Host Unit where
  perform := fun r w =>
    match r with
    | .querySymbolicLink _ _ _ room =>
      if 2 * target.length ≤ room.toNat then
        (⟨0, UInt16.ofNat (2 * target.length), 0, Utf16.block target⟩, w)
      else (⟨NtStatus.bufferTooSmall, 0, UInt32.ofNat (2 * target.length), .empty⟩, w)
    | r => ((HostScript.perform r {}).1, w)
  lastError := fun _ => 0
  processHeap := 0
  memory := fun _ _ => []

theorem Host.linking_linksTo {target : List UInt16} (h : 2 * target.length ≤ 65534)
    (link : RawHandle) : (linking target).LinksTo link target := by
  constructor
  · intro into room w hshort
    have hlarge : ¬ 2 * target.length ≤ room.toNat := Nat.not_le.mpr hshort
    simp only [linkReply, linking, if_neg hlarge, UInt32.toNat_ofNat', true_and]
    omega
  · intro into room w hfits
    have hcount : (UInt16.ofNat (2 * target.length)).toNat = 2 * target.length := by
      rw [UInt16.toNat_ofNat']
      omega
    simp only [linkReply, linking, if_pos hfits, hcount, true_and]
    rw [← Utf16.size_block]
    exact ⟨rfl, ByteArray.extract_zero_size⟩

/-- The pool lends more room than a call can be told of. -/
theorem Broker.symbolicLinkTarget_reads_every_target_roomy :
    let target : List UInt16 := [0x5C, 0x41, 0xD800]
    let b : Broker Unit := ⟨Host.linking target, ⟨fun _ => true⟩, {}⟩
    let l : Handle (Unit × List Exchange) := b.observed.host.own .ntObject 5
    let large : Buffer := Buffer.empty.extend 70000 (by decide)
    let pool : Pool := ⟨{}, [large]⟩
    l.borrow = .ok 5 ∧ b.host.LinksTo 5 target ∧ 0xFFFF < large.capacity ∧
      pool.acquire b.allocator linkTargetBytes = (.ok large.clear, ⟨{}, []⟩) ∧
      ∃ e, b.observed.symbolicLinkTarget l ⟨pool, ((), [])⟩ = some e ∧
        e.value = .returned "\\A\uFFFD" := by
  intro target b l large pool
  have hlink : l.borrow = .ok 5 := rfl
  have hlinks : b.host.LinksTo 5 target := Host.linking_linksTo (by decide) 5
  have hcapacity : large.capacity = 70000 := Buffer.capacity_extend_empty 70000 _
  have hlease := Pool.acquire_singleton (n := linkTargetBytes) b.allocator {}
    (Nat.le_trans (by decide) (Nat.le_of_eq hcapacity.symm))
  obtain ⟨e, rooms, made, he, hvalue, -⟩ := symbolicLinkTarget_reads_every_target hlink
    (by decide) (by decide) (Allocator.serves_of_provides (by decide)) hlinks ⟨pool, ((), [])⟩
  have htext : Utf16.decode target = "\\A\uFFFD" := by decide +kernel
  rw [htext] at hvalue
  exact ⟨hlink, hlinks, by omega, hlease, e, he, hvalue⟩

end NativeResource

import NativeResource.Proofs.Buffer.Reading
import NativeResource.Proofs.Sizing.Service
/-!
Counted calls. A call that counts units needs room for its text and one unit more, so sizing serves
it like any other call; what is returned is the text it wrote, after two calls at most.
-/
namespace NativeResource

variable {σ α ν : Type} {p : SizingPolicy} {alloc : Allocator}

/-- The call has a text of units. A buffer without room for them and one more is answered with how
many that makes; to any other one they are written, and the answer is how many they are. -/
structure CountedCall.Writes (call : CountedCall σ) (w : List UInt16) : Prop where
  short : ∀ u, u.buffer.charCapacity ≤ w.length →
    (call u).value = some (.ok (UInt32.ofNat (w.length + 1))) ∧
      (call u).state.buffer.capacity = u.buffer.capacity
  written : ∀ u, w.length < u.buffer.charCapacity →
    (call u).value = some (.ok (UInt32.ofNat w.length)) ∧
      (call u).state.buffer.bytes.extract 0 (2 * w.length) = Utf16.block w

namespace CountedCall

variable {call : CountedCall σ} {w : List UInt16} {charCapacity : Nat} {count : UInt32}

theorem answer_of_le (h : charCapacity ≤ count.toNat) :
    answer charCapacity (.ok count) = ⟨.win32 Win32.insufficientBuffer, 2 * count.toNat⟩ := by
  have hlt : count.toNat < 4294967296 := count.toNat_lt
  have hsize : saturate (count.toNat * Buffer.unitBytes) = 2 * count.toNat := by
    simp only [saturate, Buffer.unitBytes, sizeLimit]
    omega
  rw [answer, if_pos h, hsize]

theorem answer_of_lt (h : count.toNat < charCapacity) :
    answer charCapacity (.ok count) = ⟨.win32 Win32.success, 2 * count.toNat⟩ := by
  rw [answer, if_neg (Nat.not_le.mpr h), Buffer.unitBytes, Nat.mul_comm]

theorem toCall_value {u : InUse σ} {count : UInt32} (h : (call u).value = some (.ok count)) :
    (call.toCall u).value = some (answer u.buffer.charCapacity (.ok count)) := by
  simp only [toCall, h, Option.map_some]

namespace Writes

theorem toCall_short (h : call.Writes w) (hw : w.length + 1 ≤ 0xFFFFFFFF) {u : InUse σ}
    (hshort : u.buffer.capacity < 2 * (w.length + 1)) :
    (call.toCall u).value = some ⟨.win32 Win32.insufficientBuffer, 2 * (w.length + 1)⟩ := by
  have hchars : u.buffer.charCapacity ≤ w.length := by
    simp only [Buffer.charCapacity, Buffer.unitBytes]
    omega
  have hcount : (UInt32.ofNat (w.length + 1)).toNat = w.length + 1 := by
    rw [UInt32.toNat_ofNat']
    omega
  rw [toCall_value (h.short u hchars).1, answer_of_le (by omega), hcount]

theorem toCall_written (h : call.Writes w) (hw : w.length + 1 ≤ 0xFFFFFFFF) {u : InUse σ}
    (hfits : 2 * (w.length + 1) ≤ u.buffer.capacity) :
    (call.toCall u).value = some ⟨.win32 Win32.success, 2 * w.length⟩ ∧
      (call.toCall u).state.buffer.bytes.extract 0 (2 * w.length) = Utf16.block w := by
  have hchars : w.length < u.buffer.charCapacity := by
    simp only [Buffer.charCapacity, Buffer.unitBytes]
    omega
  have hcount : (UInt32.ofNat w.length).toNat = w.length := by
    rw [UInt32.toNat_ofNat']
    omega
  obtain ⟨hvalue, hbytes⟩ := h.written u hchars
  constructor
  · rw [toCall_value hvalue, answer_of_lt (by omega), hcount]
  · exact hbytes

theorem needs (h : call.Writes w) (hw : w.length + 1 ≤ 0xFFFFFFFF) :
    call.toCall.Needs (2 * (w.length + 1)) (Utf16.block w) := by
  constructor
  · intro u hshort
    have hchars : u.buffer.charCapacity ≤ w.length := by
      simp only [Buffer.charCapacity, Buffer.unitBytes]
      omega
    exact ⟨_, h.toCall_short hw hshort, rfl, Nat.le_refl _, (h.short u hchars).2⟩
  · intro u hfits
    obtain ⟨hvalue, hbytes⟩ := h.toCall_written hw hfits
    rw [Utf16.size_block]
    exact ⟨_, hvalue, rfl, rfl, hbytes⟩

end Writes

end CountedCall

namespace Session

variable {call : Call σ} {decode : Decoder σ α} {s : Session σ} {n needed : Nat}
  {payload : ByteArray} {b : Buffer} {rest : Pool} {earlier : List (Attempt σ)} {last : Attempt σ}
  {v : InUse σ}

theorem exists_of_served (decode : Decoder σ α) (hcall : call.Needs needed payload)
    (hlease : s.pool.acquire alloc n = (.ok b, rest))
    (hcourse : Course p alloc call ⟨b, s.state⟩ earlier (call.attempt v))
    (hfits : needed ≤ v.buffer.capacity) :
    ∃ e d, single p alloc n call decode s = some e ∧ d.contents = payload ∧
      e.value = (decode d payload.size (call.attempt v).left.state).value := by
  obtain ⟨a, ha, hs, hsize, hpayload⟩ := hcall.served v.clear hfits
  have hleft : a.size ≤ (call.attempt v).left.buffer.capacity := by
    have hlength := congrArg ByteArray.size hpayload
    rw [ByteArray.size_extract] at hlength
    change a.size ≤ (call v.clear).state.buffer.bytes.size
    omega
  obtain ⟨e, decoded, he, hrun⟩ := SingleRun.exists_of_course decode hlease hcourse
  obtain ⟨d, -, hbytes, hlength, hvalue⟩ := hrun.verdict.decoded_of_success ha hs hleft
  refine ⟨e, d, he, ?_, ?_⟩
  · rw [Buffer.contents, hbytes, hlength, hsize]
    exact hpayload
  · rw [hvalue, hsize]

/-- Whoever observes a counted call notes the attempts of its course and nothing else. -/
theorem counted_observed {call : CountedCall σ} {chars : Nat}
    {e : Effect (Session σ) (Outcome String)}
    (hlease : s.pool.acquire alloc (saturate (chars * Buffer.unitBytes)) = (.ok b, rest))
    (hcourse : Course p alloc call.toCall ⟨b, s.state⟩ earlier last)
    (he : counted p alloc chars call s = some e) (o : Observer ν) (notes : List ν) :
    counted p alloc chars (call.observed o) (s.noted notes) =
      some (e.onState (Session.noted (((earlier ++ [last]).map o.ofAttempt).reverse ++ notes))) :=
  single_noted hlease hcourse he (call.toCall.notedBy_observed o) (fun _ _ _ _ => rfl) notes

/-- Whatever the text and however small the buffer that was lent, a counted call is asked twice at
the most, and its units are returned as they decode; so a text comes back as it was encoded. -/
theorem counted_returns_text_written (p : SizingPolicy) {s : Session σ} {chars : Nat} {b : Buffer}
    {rest : Pool} {w : List UInt16} {call : CountedCall σ} (hw : w.length + 1 ≤ 0xFFFFFFFF)
    (hlease : s.pool.acquire alloc (saturate (chars * Buffer.unitBytes)) = (.ok b, rest))
    (hroom : 2 * (w.length + 1) ≤ p.ceiling ∨ w.length + 1 ≤ b.charCapacity)
    (halloc : alloc.Serves p.ceiling) (hcall : call.Writes w) :
    ∃ (e : Effect (Session σ) (Outcome String)) (attempts : List (Attempt σ)),
      counted p alloc chars call s = some e ∧
      e.value = .returned (Utf16.decode w) ∧
      (∀ text, w = Utf16.encode text → e.value = .returned text) ∧
      attempts.length ≤ 2 ∧
      ∀ {ν : Type} (o : Observer ν) (notes : List ν),
        counted p alloc chars (call.observed o) (s.noted notes) =
          some (e.onState (Session.noted ((attempts.map o.ofAttempt).reverse ++ notes))) := by
  have hneeds := hcall.needs hw
  have hlarge : 2 * (w.length + 1) ≤ b.capacity ∨ 2 * (w.length + 1) ≤ p.ceiling := by
    simp only [Buffer.charCapacity, Buffer.unitBytes] at hroom
    omega
  obtain ⟨earlier, v, hcourse, hfits⟩ := hneeds.exists_course_served halloc ⟨b, s.state⟩ hlarge
  obtain ⟨e, d, he, hcontents, hvalue⟩ := exists_of_served (fun b _ =>
    pure (.returned b.text)) hneeds hlease hcourse hfits
  have htext : e.value = .returned (Utf16.decode w) := by
    have hdecoded : e.value = .returned d.text := hvalue
    rw [hdecoded, Buffer.text, Buffer.units_of_contents hcontents]
  have htwice : earlier.length ≤ 1 := by
    apply hneeds.length_le_one _ hcourse
    intro u a hshort ha
    rw [hcall.toCall_short hw hshort] at ha
    cases ha
    rfl
  refine ⟨e, earlier ++ [call.toCall.attempt v], he, htext, ?_, ?_, ?_⟩
  · rintro text rfl
    rw [htext, Utf16.decode_encode]
  · simp only [List.length_append, List.length_singleton]
    omega
  · intro ν o notes
    exact counted_observed hlease hcourse he o notes

end Session

def CountedCall.writing (w : List UInt16) : CountedCall Unit := fun u =>
  if w.length < u.buffer.charCapacity then
    ⟨some (.ok (UInt32.ofNat w.length)), ⟨u.buffer.overlay (Utf16.block w), ()⟩, []⟩
  else ⟨some (.ok (UInt32.ofNat (w.length + 1))), u, []⟩

theorem CountedCall.writing_writes (w : List UInt16) : (writing w).Writes w := by
  constructor
  · intro u hshort
    rw [writing, if_neg (Nat.not_lt.mpr hshort)]
    exact ⟨rfl, rfl⟩
  · intro u hfits
    have hsize : (Utf16.block w).size ≤ u.buffer.capacity := by
      rw [Utf16.size_block]
      simp only [Buffer.charCapacity, Buffer.unitBytes] at hfits
      omega
    have hwritten := Buffer.extract_overlay hsize
    rw [Utf16.size_block] at hwritten
    rw [writing, if_pos hfits]
    exact ⟨rfl, hwritten⟩

theorem Session.counted_returns_text_written_lone :
    Pool.acquire ⟨fun _ => true⟩ (saturate (0 * Buffer.unitBytes)) ⟨{}, []⟩ =
        (.ok .empty, ⟨{}, []⟩) ∧
      (CountedCall.writing [0x41, 0, 0xD800]).Writes [0x41, 0, 0xD800] ∧
      ∃ e, counted {} ⟨fun _ => true⟩ 0 (CountedCall.writing [0x41, 0, 0xD800])
          ⟨⟨{}, []⟩, ()⟩ = some e ∧ e.value = .returned "A\x00\uFFFD" := by
  have hlease : Pool.acquire ⟨fun _ => true⟩ (saturate (0 * Buffer.unitBytes)) ⟨{}, []⟩ =
      (.ok .empty, ⟨{}, []⟩) := rfl
  have hcall := CountedCall.writing_writes [0x41, 0, 0xD800]
  obtain ⟨e, attempts, he, hvalue, -⟩ := counted_returns_text_written {} (s := ⟨⟨{}, []⟩, ()⟩)
    (by decide) hlease (.inl (by decide)) (Allocator.serves_of_provides (by decide)) hcall
  exact ⟨hlease, hcall, e, he, hvalue⟩

end NativeResource

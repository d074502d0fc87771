import NativeResource.Proofs.Sizing.Verdict
/-!
A call that needs so much room, whatever it reports below that. It is served from every buffer the
pool may lend, as far as the ceiling lets the buffer grow, and its payload is decoded once; past
the ceiling the run fails with the code of the call's last answer.
-/
namespace NativeResource

variable {σ α : Type} {p : SizingPolicy} {alloc : Allocator} {call : Call σ}

def Allocator.Serves (alloc : Allocator) (n : Nat) : Prop :=
  ∀ m ≤ n, alloc.fault? (roundToWord m) = none

/-- The call has a payload for buffers of at least `needed` bytes, which it writes to the start and
whose size it answers. To a smaller buffer it answers that it is too small, with any size up to
the needed one, and it leaves the buffer as small as it was. -/
structure Call.Needs (call : Call σ) (needed : Nat) (payload : ByteArray) : Prop where
  short : ∀ u, u.buffer.capacity < needed → ∃ a, (call u).value = some a ∧
    a.code.signal = .insufficientBuffer ∧ a.size ≤ needed ∧
    (call u).state.buffer.capacity = u.buffer.capacity
  served : ∀ u, needed ≤ u.buffer.capacity → ∃ a, (call u).value = some a ∧
    a.code.signal = .success ∧ a.size = payload.size ∧
    (call u).state.buffer.bytes.extract 0 payload.size = payload

theorem roundToWord_le_roundToWord {m n : Nat} (h : m ≤ n) : roundToWord m ≤ roundToWord n := by
  simp only [roundToWord, wordBytes]
  omega

theorem Buffer.exists_reserve {n : Nat} (h : alloc.Serves n) (b : Buffer) :
    ∃ c, b.reserve alloc n = .ok c := by
  cases hreserve : b.reserve alloc n with
  | ok c => exact ⟨c, rfl⟩
  | error f =>
    obtain ⟨fault, hfault, -⟩ := Buffer.fault_of_reserve hreserve
    rw [h n (Nat.le_refl n)] at hfault
    cases hfault

theorem Pool.exists_acquire {n : Nat} (h : alloc.Serves n) (pool : Pool) :
    ∃ b rest, pool.acquire alloc n = (.ok b, rest) := by
  rw [acquire]
  cases pool.take? n with
  | none =>
    obtain ⟨b, hb⟩ := Buffer.exists_reserve h .empty
    exact ⟨b, pool, congrArg (·, pool) hb⟩
  | some taken =>
    obtain ⟨b, hb⟩ := Buffer.exists_reserve h taken.1.clear
    exact ⟨b, taken.2, congrArg (·, taken.2) hb⟩

theorem Allocator.Serves.mono {m n : Nat} (h : alloc.Serves n) (hle : m ≤ n) : alloc.Serves m :=
  fun k hk => h k (Nat.le_trans hk hle)

namespace SizingPolicy

variable {capacity required target : Nat} {a : Answer} {b c : Buffer}

theorem le_target (h : p.target? capacity required = some target) : required ≤ target := by
  have hwanted := required_le_wanted p capacity required
  unfold target? at h
  split at h
  · cases h
    exact hwanted
  · split at h
    · next hroom =>
      cases h
      exact hroom.2
    · cases h

theorem target_le_ceiling (h : p.target? capacity required = some target) :
    target ≤ p.ceiling := by
  unfold target? at h
  split at h
  · next hle =>
    cases h
    exact hle
  · split at h
    · cases h
      exact Nat.le_refl _
    · cases h

theorem exists_grow (halloc : alloc.Serves p.ceiling)
    (ht : p.target? b.capacity a.size = some target) :
    ∃ c, (p.grow alloc a b).result = .ok c := by
  obtain ⟨c, hc⟩ := Buffer.exists_reserve (halloc.mono (target_le_ceiling ht)) b
  rw [grow_of_target ht, hc]
  exact ⟨c, rfl⟩

theorem size_le_of_grow (h : (p.grow alloc a b).result = .ok c) : a.size ≤ c.capacity := by
  obtain ⟨target, ht, hle⟩ := le_capacity_of_grow h
  exact Nat.le_trans (le_target ht) hle

theorem capacity_le_of_grow (h : (p.grow alloc a b).result = .ok c) :
    c.capacity ≤ max b.capacity (roundToWord p.ceiling) := by
  obtain ⟨target, ht, -⟩ := le_capacity_of_grow h
  rw [grow_of_target ht] at h
  rcases Buffer.capacity_of_reserve h with hc | ⟨-, rfl⟩
  · have := roundToWord_le_roundToWord (target_le_ceiling ht)
    omega
  · exact Nat.le_max_left _ _

variable {x : Attempt σ} {code : Code}

theorem not_enlarged_of_signal (ha : x.answer = some a) (hcode : a.code = code)
    (hs : code.signal ≠ .insufficientBuffer) (b : Buffer) : ¬ p.Enlarged alloc x b := by
  rintro ⟨a', ha', hs', -⟩
  cases ha.symm.trans ha'
  rw [hcode] at hs'
  exact hs hs'

theorem refused_of_not_enlarged (halloc : alloc.Serves p.ceiling) (ha : x.answer = some a)
    (hs : a.code.signal = .insufficientBuffer) (hn : ∀ b, ¬ p.Enlarged alloc x b) :
    p.target? x.left.buffer.capacity a.size = none := by
  cases ht : p.target? x.left.buffer.capacity a.size with
  | none => rfl
  | some target =>
    obtain ⟨b, hg⟩ := exists_grow halloc ht
    exact absurd ⟨a, ha, hs, hg⟩ (hn b)

end SizingPolicy

namespace Call.Needs

variable {needed : Nat} {payload : ByteArray} {u : InUse σ} {earlier : List (Attempt σ)}
  {last : Attempt σ}

theorem not_enlarged (hcall : call.Needs needed payload) (h : needed ≤ u.buffer.capacity)
    (b : Buffer) : ¬ p.Enlarged alloc (call.attempt u) b := by
  obtain ⟨a, ha, hs, -, -⟩ := hcall.served u.clear h
  apply SizingPolicy.not_enlarged_of_signal ha rfl
  rw [hs]
  exact nofun

/-- A call that is repeated had left its buffer as small as it was, so its course ends. -/
theorem exists_course (hcall : call.Needs needed payload) (p : SizingPolicy) (alloc : Allocator)
    (u : InUse σ) : ∃ earlier v, Course p alloc call u earlier (call.attempt v) := by
  have hkeeps : ∀ u b, p.Enlarged alloc (call.attempt u) b →
      u.buffer.capacity ≤ (call.attempt u).left.buffer.capacity := by
    intro u b hb
    rcases Nat.lt_or_ge u.buffer.capacity needed with hshort | hfits
    · obtain ⟨-, -, -, -, hkept⟩ := hcall.short u.clear hshort
      exact Nat.le_of_eq hkept.symm
    · exact absurd hb (hcall.not_enlarged hfits b)
  obtain ⟨earlier, last, hcourse⟩ := Course.exists_of_keeps hkeeps u
  obtain ⟨v, rfl⟩ := hcourse.exists_attempt last (List.mem_append_right earlier List.mem_cons_self)
  exact ⟨earlier, v, hcourse⟩

theorem exists_course_served (hcall : call.Needs needed payload) (halloc : alloc.Serves p.ceiling)
    (u : InUse σ) (hroom : needed ≤ u.buffer.capacity ∨ needed ≤ p.ceiling) :
    ∃ earlier v, Course p alloc call u earlier (call.attempt v) ∧ needed ≤ v.buffer.capacity := by
  rcases hroom with hfits | hceiling
  · exact ⟨[], u, .last u (hcall.not_enlarged hfits), hfits⟩
  · obtain ⟨earlier, v, hcourse⟩ := hcall.exists_course p alloc u
    refine ⟨earlier, v, hcourse, Nat.le_of_not_lt ?_⟩
    intro hshort
    obtain ⟨a, ha, hs, hsize, hkept⟩ := hcall.short v.clear hshort
    change (call.attempt v).left.buffer.capacity = v.buffer.capacity at hkept
    have ht := SizingPolicy.refused_of_not_enlarged halloc ha hs hcourse.last_not_enlarged
    have := (SizingPolicy.target?_eq_none_iff p a.size
      (call.attempt v).left.buffer.capacity_le).mp ht
    omega

theorem short_of_course (hcall : call.Needs needed payload)
    (hceiling : roundToWord p.ceiling < needed) (h : Course p alloc call u earlier last)
    (hshort : u.buffer.capacity < needed) : last.found.buffer.capacity < needed := by
  induction h with
  | last => exact hshort
  | @again u b _ _ hb _ ih =>
    apply ih
    change b.capacity < needed
    obtain ⟨-, -, -, -, hkept⟩ := hcall.short u.clear hshort
    change (call.attempt u).left.buffer.capacity = u.buffer.capacity at hkept
    obtain ⟨a, -, -, hg⟩ := hb
    have hlimit := SizingPolicy.capacity_le_of_grow hg
    omega

theorem exists_course_refused (hcall : call.Needs needed payload) (halloc : alloc.Serves p.ceiling)
    (u : InUse σ) (hshort : u.buffer.capacity < needed)
    (hceiling : roundToWord p.ceiling < needed) :
    ∃ earlier last a, Course p alloc call u earlier last ∧ last.answer = some a ∧
      a.code.signal = .insufficientBuffer ∧
      p.target? last.left.buffer.capacity a.size = none := by
  obtain ⟨earlier, v, hcourse⟩ := hcall.exists_course p alloc u
  obtain ⟨a, ha, hs, -⟩ := hcall.short v.clear (hcall.short_of_course hceiling hcourse hshort)
  exact ⟨earlier, call.attempt v, a, hcourse, ha, hs,
    SizingPolicy.refused_of_not_enlarged halloc ha hs hcourse.last_not_enlarged⟩

/-- A call that reports what it needs is served at the second attempt at the latest. -/
theorem length_le_one (hcall : call.Needs needed payload)
    (hexact : ∀ u a, u.buffer.capacity < needed → (call u).value = some a → a.size = needed)
    (h : Course p alloc call u earlier last) : earlier.length ≤ 1 := by
  cases h with
  | last => exact Nat.zero_le _
  | @again _ b _ _ hb hrest =>
    have hfits : needed ≤ b.capacity := by
      obtain ⟨a, ha, -, hg⟩ := id hb
      rcases Nat.lt_or_ge u.buffer.capacity needed with hshort | hlarge
      · have hsize := hexact u.clear a hshort ha
        have := SizingPolicy.size_le_of_grow hg
        omega
      · exact absurd hb (hcall.not_enlarged hlarge b)
    cases hrest with
    | last => exact Nat.le_refl _
    | again _ hb' _ => exact absurd hb' (hcall.not_enlarged hfits _)

end Call.Needs

namespace Session

variable {decode : Decoder σ α} {last : Attempt σ} {outcome : Outcome α} {t : σ}
  {decoded : List (Buffer × Nat)} {a : Answer}

theorem Verdict.decoded_of_success (h : Verdict p alloc decode last outcome t decoded)
    (ha : last.answer = some a) (hs : a.code.signal = .success)
    (hfits : a.size ≤ last.left.buffer.capacity) :
    ∃ b, decoded = [(b, a.size)] ∧ b.bytes = last.left.buffer.bytes ∧ b.length = a.size ∧
      outcome = (decode b a.size last.left.state).value := by
  cases h with
  | decoded ha' _ _ hbytes hlength =>
    cases ha.symm.trans ha'
    exact ⟨_, rfl, hbytes, hlength, rfl⟩
  | tooLong ha' _ hlong _ _ =>
    cases ha.symm.trans ha'
    omega
  | more ha' hs' _ _ _ | exhausted ha' hs' _ _ | reported ha' hs' _ _ | refused ha' hs' _ _ _
  | unprovided ha' hs' _ _ _ _ =>
    cases ha.symm.trans ha'
    rw [hs] at hs'
    cases hs'
  | unwound ha' =>
    rw [ha] at ha'
    cases ha'

theorem Verdict.failed_of_failure (h : Verdict p alloc decode last outcome t decoded)
    (ha : last.answer = some a) (hs : a.code.signal = .failure) :
    decoded = [] ∧ ∃ f, outcome = .failed f ∧ f.kind = a.code.kind ∧ f.code = some a.code := by
  cases h with
  | reported ha' _ hkind hcode =>
    cases ha.symm.trans ha'
    exact ⟨rfl, _, rfl, hkind, hcode⟩
  | tooLong ha' hs' _ _ _ =>
    cases ha.symm.trans ha'
    rw [hs] at hs'
    rcases hs' with hs' | hs' <;> cases hs'
  | decoded ha' hs' _ _ _ | more ha' hs' _ _ _ | exhausted ha' hs' _ _ | refused ha' hs' _ _ _
  | unprovided ha' hs' _ _ _ _ =>
    cases ha.symm.trans ha'
    rw [hs] at hs'
    cases hs'
  | unwound ha' =>
    rw [ha] at ha'
    cases ha'

theorem Verdict.state_eq (h : Verdict p alloc decode last outcome t decoded)
    (hdecode : ∀ b n s, (decode b n s).state = s) : t = last.left.state := by
  cases h with
  | decoded => exact hdecode _ _ _
  | tooLong | more | exhausted | reported | refused | unprovided | unwound => rfl

theorem Verdict.failed_of_refused (h : Verdict p alloc decode last outcome t decoded)
    (ha : last.answer = some a) (hs : a.code.signal = .insufficientBuffer)
    (ht : p.target? last.left.buffer.capacity a.size = none) :
    decoded = [] ∧ ∃ f, outcome = .failed f ∧ f.kind = .outOfMemory ∧ f.code = some a.code := by
  cases h with
  | refused ha' _ _ hkind hcode =>
    cases ha.symm.trans ha'
    exact ⟨rfl, _, rfl, hkind, hcode⟩
  | unprovided ha' _ ht' _ _ _ =>
    cases ha.symm.trans ha'
    rw [ht] at ht'
    cases ht'
  | tooLong ha' hs' _ _ _ =>
    cases ha.symm.trans ha'
    rw [hs] at hs'
    rcases hs' with hs' | hs' <;> cases hs'
  | decoded ha' hs' _ _ _ | more ha' hs' _ _ _ | exhausted ha' hs' _ _ | reported ha' hs' _ _ =>
    cases ha.symm.trans ha'
    rw [hs] at hs'
    cases hs'
  | unwound ha' =>
    rw [ha] at ha'
    cases ha'

/-- Whatever buffer the pool lent, the payload is decoded once as long as the ceiling leaves room
for it, after at most two attempts if the call reports what it needs; past the ceiling nothing is
decoded, and the failure has the code of the last answer. -/
theorem single_serves_up_to_ceiling (p : SizingPolicy) (decode : Decoder σ α) {s : Session σ}
    {n needed : Nat} {payload : ByteArray} {b : Buffer} {rest : Pool}
    (hlease : s.pool.acquire alloc n = (.ok b, rest)) (hcall : call.Needs needed payload)
    (halloc : alloc.Serves p.ceiling) :
    (needed ≤ b.capacity ∨ needed ≤ p.ceiling →
      ∃ e earlier last d, single p alloc n call decode s = some e ∧
        SingleRun p alloc n call decode s b e earlier last [(d, payload.size)] ∧
        d.contents = payload ∧
        e.value = (decode d payload.size last.left.state).value ∧
        ((∀ u a, u.buffer.capacity < needed → (call u).value = some a → a.size = needed) →
          earlier.length + 1 ≤ 2)) ∧
    (b.capacity < needed → roundToWord p.ceiling < needed →
      ∃ e earlier last a f, single p alloc n call decode s = some e ∧
        SingleRun p alloc n call decode s b e earlier last [] ∧
        last.answer = some a ∧ a.code.signal = .insufficientBuffer ∧
        e.value = .failed f ∧ f.kind = .outOfMemory ∧ f.code = some a.code) := by
  constructor
  · intro hroom
    obtain ⟨earlier, v, hcourse, hfits⟩ := hcall.exists_course_served halloc ⟨b, s.state⟩ hroom
    obtain ⟨a, ha, hs, hsize, hpayload⟩ := hcall.served v.clear hfits
    have hleft : a.size ≤ (call.attempt v).left.buffer.capacity := by
      have hlength := congrArg ByteArray.size hpayload
      rw [ByteArray.size_extract] at hlength
      change a.size ≤ (call v.clear).state.buffer.bytes.size
      omega
    have hends : ∃ e, single p alloc n call decode s = some e :=
      (single_ends_iff hlease).mpr ⟨earlier, _, hcourse⟩
    obtain ⟨e, he⟩ := hends
    obtain ⟨decoded, hrun⟩ := SingleRun.of_course hlease hcourse he
    obtain ⟨d, rfl, hbytes, hlength, hvalue⟩ := hrun.verdict.decoded_of_success ha hs hleft
    rw [hsize] at hrun hvalue
    refine ⟨e, earlier, _, d, he, hrun, ?_, hvalue, ?_⟩
    · rw [Buffer.contents, hbytes, hlength, hsize]
      exact hpayload
    · intro hexact
      have := hcall.length_le_one hexact hcourse
      omega
  · intro hshort hceiling
    obtain ⟨earlier, last, a, hcourse, ha, hs, ht⟩ :=
      hcall.exists_course_refused halloc ⟨b, s.state⟩ hshort hceiling
    have hends : ∃ e, single p alloc n call decode s = some e :=
      (single_ends_iff hlease).mpr ⟨earlier, last, hcourse⟩
    obtain ⟨e, he⟩ := hends
    obtain ⟨decoded, hrun⟩ := SingleRun.of_course hlease hcourse he
    obtain ⟨rfl, f, hvalue, hkind, hcode⟩ := hrun.verdict.failed_of_refused ha hs ht
    exact ⟨e, earlier, last, a, f, he, hrun, ha, hs, hvalue, hkind, hcode⟩

end Session

def Call.delivering (needed : Nat) (payload : ByteArray) : Call Unit := fun u =>
  if needed ≤ u.buffer.capacity then
    ⟨some ⟨.win32 Win32.success, payload.size⟩, ⟨u.buffer.overlay payload, ()⟩, []⟩
  else ⟨some ⟨.win32 Win32.moreData, needed / 2⟩, u, []⟩

theorem Buffer.extract_overlay {b : Buffer} {data : ByteArray} (h : data.size ≤ b.capacity) :
    (b.overlay data).bytes.extract 0 data.size = data := by
  have hwhole : data.extract 0 b.capacity = data := by
    apply ByteArray.ext
    rw [ByteArray.data_extract]
    exact Array.extract_eq_self_of_le h
  have hfits : 0 + data.size ≤ b.capacity := by omega
  rw [overlay, hwhole, write?, dif_pos hfits, Option.getD_some]
  exact Bytes.extract_overwrite b.bytes data

theorem Call.delivering_needs {needed : Nat} {payload : ByteArray} (h : payload.size ≤ needed) :
    (delivering needed payload).Needs needed payload := by
  constructor
  · intro u hshort
    have hlarge : ¬ needed ≤ u.buffer.capacity := Nat.not_le.mpr hshort
    rw [delivering, if_neg hlarge]
    exact ⟨_, rfl, rfl, Nat.div_le_self needed 2, rfl⟩
  · intro u hfits
    have hwritten := Buffer.extract_overlay (Nat.le_trans h hfits)
    rw [delivering, if_pos hfits]
    exact ⟨_, rfl, rfl, rfl, hwritten⟩

theorem Allocator.serves_of_provides {n : Nat} (h : roundToWord n ≤ largestBlock) :
    Serves ⟨fun _ => true⟩ n := by
  intro m hm
  have := roundToWord_le_roundToWord hm
  rw [fault?, if_neg (by omega), if_pos rfl]

namespace Session

theorem single_serves_up_to_ceiling_delivering :
    Pool.acquire ⟨fun _ => true⟩ 0 ⟨{}, []⟩ = (.ok .empty, ⟨{}, []⟩) ∧
      (Call.delivering 300 ⟨#[1, 2, 3]⟩).Needs 300 ⟨#[1, 2, 3]⟩ ∧
      (∃ e, single {} ⟨fun _ => true⟩ 0 (Call.delivering 300 ⟨#[1, 2, 3]⟩)
          (fun b _ => pure (.returned (Bytes.toList b.contents))) ⟨⟨{}, []⟩, ()⟩ = some e ∧
        e.value = .returned [1, 2, 3]) ∧
      ∃ e f, single ⟨100, 256, by decide⟩ ⟨fun _ => true⟩ 0 (Call.delivering 300 ⟨#[1, 2, 3]⟩)
          (fun b _ => pure (.returned (Bytes.toList b.contents))) ⟨⟨{}, []⟩, ()⟩ = some e ∧
        e.value = .failed f ∧ f.kind = .outOfMemory := by
  have hlease : Pool.acquire ⟨fun _ => true⟩ 0 ⟨{}, []⟩ = (.ok .empty, ⟨{}, []⟩) := rfl
  have hcall : (Call.delivering 300 ⟨#[1, 2, 3]⟩).Needs 300 ⟨#[1, 2, 3]⟩ :=
    Call.delivering_needs (by decide)
  let decode : Decoder Unit (List UInt8) := fun b _ => pure (.returned (Bytes.toList b.contents))
  obtain ⟨hserved, -⟩ := single_serves_up_to_ceiling {} decode (s := ⟨⟨{}, []⟩, ()⟩) hlease hcall
    (Allocator.serves_of_provides (by decide))
  obtain ⟨e, earlier, last, d, he, -, hcontents, hvalue, -⟩ := hserved (.inr (by decide))
  have hitems : Bytes.toList d.contents = [1, 2, 3] := by rw [hcontents]; rfl
  obtain ⟨-, hrefused⟩ := single_serves_up_to_ceiling ⟨100, 256, by decide⟩ decode
    (s := ⟨⟨{}, []⟩, ()⟩) hlease hcall (Allocator.serves_of_provides (by decide))
  obtain ⟨e', -, -, -, f, he', -, -, -, hfailed, hkind, -⟩ := hrefused (by decide) (by decide)
  refine ⟨hlease, hcall, ⟨e, he, ?_⟩, e', f, he', hfailed, hkind⟩
  rw [hvalue, ← hitems]
  rfl

end Session

end NativeResource

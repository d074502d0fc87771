import NativeResource.Host.Script
import NativeResource.Proofs.Buffer.Reading
import NativeResource.Proofs.Host.Conduct
import NativeResource.Proofs.Registry.Storage
import NativeResource.Proofs.Sizing.Service
/-!
Reading a registry value that may change from call to call. Every call that finds the buffer too
small is repeated with a larger one, and the first that does not decides: what is decoded is the
data of that call under the type of that call.
-/
namespace NativeResource

variable {ω : Type}

/-- One call for a value: the state of the host that it met, and the room it offered. -/
structure Trial (ω : Type) where
  before : ω
  capacity : Nat

namespace Trial

variable (host : Host ω) (key : RawHandle) (name : List UInt16)

def request (t : Trial ω) : Request :=
  .queryValue key name ⟨t.capacity⟩ (sizeArgument t.capacity)

def reply (t : Trial ω) : ValueReply := (host.perform (t.request key name) t.before).1

def after (t : Trial ω) : ω := (host.perform (t.request key name) t.before).2

def exchange (t : Trial ω) : Exchange := ⟨t.request key name, t.reply host key name⟩

end Trial

inductive Trials (host : Host ω) (key : RawHandle) (name : List UInt16) :
    ω → List (Trial ω) → ω → Prop where
  | nil (w : ω) : Trials host key name w [] w
  | cons (t : Trial ω) {rest : List (Trial ω)} {w : ω} :
      Trials host key name (t.after host key name) rest w →
      Trials host key name t.before (t :: rest) w

/-- What a key holds under a name at each state of the host, if anything. A call is answered by the
value of its moment: that it is missing, that the room is too small and how many bytes it takes, or
its type and its bytes at the start of what is written. -/
structure Host.StoresValue (host : Host ω) (key : RawHandle) (name : List UInt16)
    (stored : ω → Option (UInt32 × ByteArray)) : Prop where
  missing : ∀ t : Trial ω, stored t.before = none →
    (t.reply host key name).code = Win32.fileNotFound
  short : ∀ (t : Trial ω) (type : UInt32) (data : ByteArray),
    stored t.before = some (type, data) → (sizeArgument t.capacity).toNat < data.size →
    (t.reply host key name).code = Win32.moreData ∧
      (t.reply host key name).size.toNat = data.size
  held : ∀ (t : Trial ω) (type : UInt32) (data : ByteArray),
    stored t.before = some (type, data) → data.size ≤ (sizeArgument t.capacity).toNat →
    (t.reply host key name).code = Win32.success ∧ (t.reply host key name).type = type ∧
      (t.reply host key name).size.toNat = data.size ∧
      (t.reply host key name).written.extract 0 data.size = data

theorem Trials.after_last {host : Host ω} {key : RawHandle} {name : List UInt16} {w w' : ω}
    {earlier : List (Trial ω)} {last : Trial ω}
    (h : Trials host key name w (earlier ++ [last]) w') : last.after host key name = w' := by
  induction earlier generalizing w with
  | nil =>
    cases h with
    | cons _ hrest =>
      generalize last.after host key name = v at hrest
      cases hrest
      rfl
  | cons t rest ih =>
    cases h with
    | cons _ hrest => exact ih hrest

theorem toNat_sizeArgument (n : Nat) : (sizeArgument n).toNat = min n 0xFFFFFFFF := by
  rw [sizeArgument, UInt32.toNat_ofNat']
  omega

namespace Broker

section Calls

variable {b : Broker ω} {key : RawHandle} {name : List UInt16}
  {stored : ω → Option (UInt32 × ByteArray)} {type : UInt32} {data : ByteArray}
  {u : InUse (ω × UInt32)}

def trial (u : InUse (ω × UInt32)) : Trial ω := ⟨u.state.1, u.buffer.capacity⟩

theorem valueCall_apply (b : Broker ω) (key : RawHandle) (name : List UInt16)
    (u : InUse (ω × UInt32)) :
    b.valueCall key name u =
      ⟨some ⟨.win32 (if ((trial u).reply b.host key name).code = Win32.success ∧
            sizeArgument u.buffer.capacity < ((trial u).reply b.host key name).size
          then Win32.moreData else ((trial u).reply b.host key name).code),
          ((trial u).reply b.host key name).size.toNat⟩,
        ⟨u.buffer.overlay ((trial u).reply b.host key name).written,
          ((trial u).after b.host key name, ((trial u).reply b.host key name).type)⟩, []⟩ := rfl

theorem valueCall_notedBy (b : Broker ω) (key : RawHandle) (name : List UInt16) :
    (b.valueCall key name).NotedBy (fun x => (trial x.found).exchange b.host key name)
      (fun calls s => ((s.1, calls), s.2)) (b.observed.valueCall key name) := by
  intro u calls
  have hreply : (trial (u.clear.mapState fun s => ((s.1, calls), s.2))).reply b.observed.host
      key name = (trial u.clear).reply b.host key name := rfl
  rw [valueCall_apply, valueCall_apply, hreply]
  simp only [Effect.onState, InUse.mapState]
  rfl

theorem decodeValue_besides (calls : List Exchange) :
    Decoder.Besides (decodeValue (ω := ω)) (fun s => ((s.1, calls), s.2)) decodeValue :=
  fun _ _ _ => rfl

theorem valueCall_attempt (b : Broker ω) (key : RawHandle) (name : List UInt16)
    (u : InUse (ω × UInt32)) :
    (b.valueCall key name).attempt u =
      ⟨u.clear, (b.valueCall key name u.clear).value, (b.valueCall key name u.clear).state, []⟩ :=
  rfl

theorem size_lt (h : b.host.StoresValue key name stored) {w : ω}
    (hw : stored w = some (type, data)) : data.size < 4294967296 := by
  by_cases hzero : data.size = 0
  · omega
  · have hsize := (h.short ⟨w, 0⟩ type data hw (Nat.pos_of_ne_zero hzero)).2
    have hlt := (Trial.reply b.host key name ⟨w, 0⟩).size.toNat_lt
    omega

theorem attempt_of_missing (h : b.host.StoresValue key name stored)
    (hw : stored u.state.1 = none) :
    ∃ a, ((b.valueCall key name).attempt u).answer = some a ∧
      a.code = .win32 Win32.fileNotFound := by
  have hcode := h.missing (trial u.clear) hw
  rw [valueCall_attempt, valueCall_apply, hcode]
  exact ⟨_, rfl, rfl⟩

theorem attempt_of_short (h : b.host.StoresValue key name stored)
    (hw : stored u.state.1 = some (type, data)) (hshort : u.buffer.capacity < data.size) :
    ∃ a, ((b.valueCall key name).attempt u).answer = some a ∧ a.code = .win32 Win32.moreData ∧
      a.size = data.size ∧
      ((b.valueCall key name).attempt u).left.buffer.capacity = u.buffer.capacity := by
  obtain ⟨hcode, hsize⟩ := h.short (trial u.clear) type data hw (by
    rw [toNat_sizeArgument]
    exact Nat.lt_of_le_of_lt (Nat.min_le_left _ _) hshort)
  rw [valueCall_attempt, valueCall_apply, hcode]
  refine ⟨_, rfl, rfl, hsize, ?_⟩
  rw [Buffer.capacity_overlay]
  rfl

theorem attempt_of_held (h : b.host.StoresValue key name stored)
    (hw : stored u.state.1 = some (type, data)) (hfits : data.size ≤ u.buffer.capacity) :
    ∃ a, ((b.valueCall key name).attempt u).answer = some a ∧ a.code = .win32 Win32.success ∧
      a.size = data.size ∧
      ((b.valueCall key name).attempt u).left.buffer.bytes.extract 0 data.size = data ∧
      ((b.valueCall key name).attempt u).left.state.2 = type := by
  have hlt := size_lt h hw
  have hroom : data.size ≤ (sizeArgument u.buffer.capacity).toNat := by
    rw [toNat_sizeArgument]
    omega
  obtain ⟨hcode, htype, hsize, hwritten⟩ := h.held (trial u.clear) type data hw hroom
  have hsmall : ¬ sizeArgument u.clear.buffer.capacity <
      ((trial u.clear).reply b.host key name).size := by
    rw [UInt32.lt_iff_toNat_lt, hsize]
    exact Nat.not_lt.mpr hroom
  rw [valueCall_attempt, valueCall_apply, hcode, if_neg (fun hsuccess => hsmall hsuccess.2)]
  refine ⟨_, rfl, rfl, hsize, ?_, htype⟩
  rw [Buffer.extract_overlay_of_extract (b := u.clear.buffer) hwritten hfits]

def Outgrown (p : SizingPolicy) (stored : ω → Option (UInt32 × ByteArray)) (t : Trial ω) : Prop :=
  ∃ type data, stored t.before = some (type, data) ∧ t.capacity < data.size ∧
    data.size ≤ p.ceiling

/-- The call met no value, one that fits its room, or one past room and ceiling. -/
inductive Decides (p : SizingPolicy) (stored : ω → Option (UInt32 × ByteArray)) (t : Trial ω) :
    Prop where
  | missing : stored t.before = none → Decides p stored t
  | held {type : UInt32} {data : ByteArray} : stored t.before = some (type, data) →
      data.size ≤ t.capacity → Decides p stored t
  | refused {type : UInt32} {data : ByteArray} : stored t.before = some (type, data) →
      t.capacity < data.size → p.ceiling < data.size → Decides p stored t

theorem outgrown_of_enlarged (h : b.host.StoresValue key name stored) {c : Buffer}
    (hc : b.policy.Enlarged b.allocator ((b.valueCall key name).attempt u) c) :
    Outgrown b.policy stored (trial u) := by
  cases hw : stored u.state.1 with
  | none =>
    obtain ⟨a, ha, hcode⟩ := attempt_of_missing h hw
    exact absurd hc (SizingPolicy.not_enlarged_of_signal ha hcode (by decide) c)
  | some value =>
    obtain ⟨type, data⟩ := value
    by_cases hfits : data.size ≤ u.buffer.capacity
    · obtain ⟨a, ha, hcode, -⟩ := attempt_of_held h hw hfits
      exact absurd hc (SizingPolicy.not_enlarged_of_signal ha hcode (by decide) c)
    · have hshort := Nat.lt_of_not_le hfits
      obtain ⟨a, ha, -, hsize, -⟩ := attempt_of_short h hw hshort
      obtain ⟨a', ha', -, hg⟩ := hc
      cases ha.symm.trans ha'
      obtain ⟨target, ht, -⟩ := SizingPolicy.le_capacity_of_grow hg
      have hceiling := Nat.le_trans (SizingPolicy.le_target ht)
        (SizingPolicy.target_le_ceiling ht)
      exact ⟨type, data, hw, hshort, hsize ▸ hceiling⟩

theorem exists_enlarged_of_short (h : b.host.StoresValue key name stored)
    (halloc : b.allocator.Serves b.policy.ceiling) (hw : stored u.state.1 = some (type, data))
    (hshort : u.buffer.capacity < data.size) {target : Nat}
    (ht : b.policy.target? u.buffer.capacity data.size = some target) :
    ∃ c, b.policy.Enlarged b.allocator ((b.valueCall key name).attempt u) c ∧
      c.capacity = max u.buffer.capacity (roundToWord target) := by
  obtain ⟨a, ha, hcode, hsize, hkept⟩ := attempt_of_short h hw hshort
  rw [← hkept, ← hsize] at ht
  obtain ⟨c, hc⟩ := SizingPolicy.exists_grow halloc ht
  have hreserved := hc
  rw [SizingPolicy.grow_of_target ht] at hreserved
  have hreserves := Buffer.reserve_reserves b.allocator target
    ((b.valueCall key name).attempt u).left.buffer
  rw [hreserved] at hreserves
  refine ⟨c, ⟨a, ha, ?_, hc⟩, ?_⟩
  · rw [hcode]
    rfl
  · rw [← hkept]
    exact hreserves.1

theorem decides_of_not_enlarged (h : b.host.StoresValue key name stored)
    (halloc : b.allocator.Serves b.policy.ceiling)
    (hn : ∀ c, ¬ b.policy.Enlarged b.allocator ((b.valueCall key name).attempt u) c) :
    Decides b.policy stored (trial u) := by
  cases hw : stored u.state.1 with
  | none => exact .missing hw
  | some value =>
    obtain ⟨type, data⟩ := value
    by_cases hfits : data.size ≤ u.buffer.capacity
    · exact .held hw hfits
    · have hshort := Nat.lt_of_not_le hfits
      obtain ⟨a, ha, hcode, hsize, hkept⟩ := attempt_of_short h hw hshort
      have hs : a.code.signal = .insufficientBuffer := by
        rw [hcode]
        rfl
      have ht := SizingPolicy.refused_of_not_enlarged halloc ha hs hn
      have hrefused := (SizingPolicy.target?_eq_none_iff b.policy a.size
        ((b.valueCall key name).attempt u).left.buffer.capacity_le).mp ht
      exact .refused hw hshort (by omega)

theorem neverShrinks_valueCall (b : Broker ω) (key : RawHandle) (name : List UInt16) :
    (b.valueCall key name).NeverShrinks := by
  intro u
  rw [valueCall_apply, Buffer.capacity_overlay]

/-- The call is repeated, with the value of each moment, until it meets one that decides. -/
theorem exists_course_decides (h : b.host.StoresValue key name stored)
    (halloc : b.allocator.Serves b.policy.ceiling) (u : InUse (ω × UInt32)) :
    ∃ earlier v, Course b.policy b.allocator (b.valueCall key name) u earlier
        ((b.valueCall key name).attempt v) ∧
      (∀ x ∈ earlier, Outgrown b.policy stored (trial x.found)) ∧
      Decides b.policy stored (trial v) := by
  obtain ⟨earlier, last, hcourse⟩ := Course.exists_of_neverShrinks b.policy b.allocator
    (neverShrinks_valueCall b key name) u
  obtain ⟨v, rfl⟩ := hcourse.exists_attempt last (List.mem_append_right earlier List.mem_cons_self)
  refine ⟨earlier, v, hcourse, ?_, decides_of_not_enlarged h halloc hcourse.last_not_enlarged⟩
  intro x hx
  obtain ⟨w, rfl⟩ := hcourse.exists_attempt x (List.mem_append_left _ hx)
  obtain ⟨c, hc⟩ := hcourse.enlarged_of_mem _ hx
  exact outgrown_of_enlarged h hc

theorem trials_of_course {p : SizingPolicy} {alloc : Allocator}
    {earlier : List (Attempt (ω × UInt32))} {last : Attempt (ω × UInt32)}
    (h : Course p alloc (b.valueCall key name) u earlier last) :
    Trials b.host key name u.state.1 ((earlier ++ [last]).map fun x => trial x.found)
      last.left.state.1 := by
  induction h with
  | last u _ => exact .cons (trial u) (.nil _)
  | again u _ _ ih => exact .cons (trial u) ih

end Calls

inductive Reads (p : SizingPolicy) (stored : ω → Option (UInt32 × ByteArray)) (name : String)
    (t : Trial ω) : Outcome (Option RegistryValue) → Prop where
  | missing : stored t.before = none → Reads p stored name t (.returned none)
  | read {type : UInt32} {data : ByteArray} {value : RegistryValue} :
      stored t.before = some (type, data) → data.size ≤ t.capacity →
      RegistryValue.decode type (Bytes.toList data) = .ok value →
      Reads p stored name t (.returned (some value))
  | unreadable {type : UInt32} {data : ByteArray} {f : Failure} :
      stored t.before = some (type, data) → data.size ≤ t.capacity →
      RegistryValue.decode type (Bytes.toList data) = .error f →
      Reads p stored name t (.failed (f.withContext name))
  | refused {type : UInt32} {data : ByteArray} {f : Failure} :
      stored t.before = some (type, data) → t.capacity < data.size → p.ceiling < data.size →
      f.kind = .outOfMemory → f.context = some name → Reads p stored name t (.failed f)

section Runs

variable {b : Broker ω} {key : Handle ω} {raw : RawHandle} {name : String} {s : Session ω}
  {stored : ω → Option (UInt32 × ByteArray)}

theorem presentValue_failed {f : Failure} (h : f.code ≠ some (.win32 Win32.fileNotFound)) :
    presentValue name (.failed f) = .failed (f.withContext name) := by
  rw [presentValue, if_neg h]

namespace Reads

variable {units : List UInt16} {v : InUse (ω × UInt32)} {outcome : Outcome RegistryValue}
  {t : ω × UInt32} {decoded : List (Buffer × Nat)} {type : UInt32} {data : ByteArray}

theorem of_missing (h : b.host.StoresValue raw units stored) (hw : stored v.state.1 = none)
    (hv : Session.Verdict b.policy b.allocator decodeValue ((b.valueCall raw units).attempt v)
      outcome t decoded) :
    Reads b.policy stored name (trial v) (presentValue name outcome) := by
  obtain ⟨a, ha, hcode⟩ := attempt_of_missing h hw
  have hs : a.code.signal = .failure := by
    rw [hcode]
    decide
  obtain ⟨-, f, rfl, -, hf⟩ := hv.failed_of_failure ha hs
  rw [hcode] at hf
  rw [presentValue, if_pos hf]
  exact .missing hw

/-- The type that is noted and the bytes that are decoded are those of the last call. -/
theorem of_held (h : b.host.StoresValue raw units stored)
    (hw : stored v.state.1 = some (type, data)) (hfits : data.size ≤ v.buffer.capacity)
    (hv : Session.Verdict b.policy b.allocator decodeValue ((b.valueCall raw units).attempt v)
      outcome t decoded) :
    Reads b.policy stored name (trial v) (presentValue name outcome) := by
  obtain ⟨a, ha, hcode, hsize, hbytes, htype⟩ := attempt_of_held h hw hfits
  have hs : a.code.signal = .success := by
    rw [hcode]
    rfl
  have hroom : a.size ≤ ((b.valueCall raw units).attempt v).left.buffer.capacity := by
    have hlength := congrArg ByteArray.size hbytes
    rw [ByteArray.size_extract] at hlength
    change a.size ≤ ((b.valueCall raw units).attempt v).left.buffer.bytes.size
    omega
  obtain ⟨d, -, hsame, hlength, rfl⟩ := hv.decoded_of_success ha hs hroom
  have hcontents : d.contentsList = Bytes.toList data := by
    rw [Buffer.contentsList, Buffer.contents, hsame, hlength, hsize, hbytes]
  have hvalue : (decodeValue d a.size ((b.valueCall raw units).attempt v).left.state).value =
      .ofExcept (RegistryValue.decode type (Bytes.toList data)) := by
    rw [← hcontents, ← htype]
    rfl
  rw [hvalue]
  cases hdecode : RegistryValue.decode type (Bytes.toList data) with
  | ok value => exact .read hw hfits hdecode
  | error f =>
    have hf : f.code ≠ some (.win32 Win32.fileNotFound) := by
      rw [RegistryValue.code_of_decode_error hdecode]
      intro hsome
      cases hsome
    rw [Outcome.ofExcept, presentValue_failed hf]
    exact .unreadable hw hfits hdecode

theorem of_refused (h : b.host.StoresValue raw units stored)
    (hw : stored v.state.1 = some (type, data)) (hshort : v.buffer.capacity < data.size)
    (hceiling : b.policy.ceiling < data.size)
    (hv : Session.Verdict b.policy b.allocator decodeValue ((b.valueCall raw units).attempt v)
      outcome t decoded) :
    Reads b.policy stored name (trial v) (presentValue name outcome) := by
  obtain ⟨a, ha, hcode, hsize, -⟩ := attempt_of_short h hw hshort
  have hs : a.code.signal = .insufficientBuffer := by
    rw [hcode]
    rfl
  have ht := (SizingPolicy.target?_eq_none_iff b.policy a.size
    ((b.valueCall raw units).attempt v).left.buffer.capacity_le).mpr (.inr (by omega))
  obtain ⟨-, f, rfl, hkind, hf⟩ := hv.failed_of_refused ha hs ht
  have hother : f.code ≠ some (.win32 Win32.fileNotFound) := by
    rw [hf, hcode]
    decide
  rw [presentValue_failed hother]
  exact .refused hw hshort hceiling hkind rfl

theorem of_verdict (h : b.host.StoresValue raw units stored)
    (hd : Decides b.policy stored (trial v))
    (hv : Session.Verdict b.policy b.allocator decodeValue ((b.valueCall raw units).attempt v)
      outcome t decoded) :
    Reads b.policy stored name (trial v) (presentValue name outcome) := by
  cases hd with
  | missing hw => exact of_missing h hw hv
  | held hw hfits => exact of_held h hw hfits hv
  | refused hw hshort hceiling => exact of_refused h hw hshort hceiling hv

end Reads

theorem queryValue_of_single {e : Effect (Session (ω × UInt32)) (Outcome RegistryValue)}
    (hkey : key.borrow = .ok raw)
    (he : b.single valueBytes (b.valueCall raw (Utf16.encodeTerminated name)) decodeValue
      ⟨s.pool, (s.state, 0)⟩ = some e) :
    b.queryValue key name s =
      some ⟨presentValue name e.value, ⟨e.state.pool, e.state.state.1⟩, e.log⟩ := by
  have hnote : Session.withNote (0 : UInt32) (b.single valueBytes
      (b.valueCall raw (Utf16.encodeTerminated name)) decodeValue) s =
        some ⟨e.value, ⟨e.state.pool, e.state.state.1⟩, e.log⟩ := by
    rw [Session.withNote, he]
    rfl
  rw [queryValue, borrowing, hkey]
  refine Run.bind_eq_some.mpr ⟨_, _, hnote, Run.pure_apply _ _, ?_⟩
  simp [Effect.after]

/-- Whatever becomes of a value from call to call, a value query stops at the first call that
finds none, one that its buffer holds, or one past the ceiling. Every call before it finds a value
larger than the buffer, and no other call is made. What is returned is what that last call found:
nothing, its data as decoded by its type, or that it would take too much memory. -/
theorem queryValue_reads_one_value {name : String} (b : Broker ω)
    {stored : ω → Option (UInt32 × ByteArray)} (hkey : key.borrow = .ok raw)
    (hstored : b.host.StoresValue raw (Utf16.encodeTerminated name) stored)
    (halloc : b.allocator.Serves (max b.policy.ceiling valueBytes)) (s : Session ω) :
    ∃ (e : Effect (Session ω) (Outcome (Option RegistryValue))) (earlier : List (Trial ω))
      (last : Trial ω),
      b.queryValue key name s = some e ∧
      Trials b.host raw (Utf16.encodeTerminated name) s.state (earlier ++ [last]) e.state.state ∧
      (∀ t ∈ earlier, Outgrown b.policy stored t) ∧
      Reads b.policy stored name last e.value ∧
      ∀ (watched : Handle (ω × List Exchange)) (calls : List Exchange),
        watched.borrow = .ok raw →
        b.observed.queryValue watched name (s.mapState (·, calls)) =
          some (e.onState (Session.mapState (·, ((earlier ++ [last]).map
            (Trial.exchange b.host raw (Utf16.encodeTerminated name))).reverse ++ calls))) := by
  obtain ⟨buffer, rest, hlease⟩ := Pool.exists_acquire
    (halloc.mono (Nat.le_max_right b.policy.ceiling valueBytes))
    (Session.mk s.pool (s.state, (0 : UInt32))).pool
  obtain ⟨earlier, v, hcourse, hearlier, hlast⟩ := exists_course_decides hstored
    (halloc.mono (Nat.le_max_left b.policy.ceiling valueBytes)) ⟨buffer, (s.state, 0)⟩
  obtain ⟨e, decoded, he, hrun⟩ := Session.SingleRun.exists_of_course decodeValue hlease hcourse
  have hstate := hrun.verdict.state_eq fun _ _ _ => rfl
  have hnoted := Session.single_noted hlease hcourse he
    (valueCall_notedBy b raw (Utf16.encodeTerminated name)) decodeValue_besides
  refine ⟨_, earlier.map fun x => trial x.found, trial v, queryValue_of_single hkey he, ?_, ?_,
    .of_verdict hstored hlast hrun.verdict, ?_⟩
  · have htrials := trials_of_course hcourse
    rw [← hstate, List.map_append] at htrials
    exact htrials
  · intro t ht
    obtain ⟨x, hx, rfl⟩ := List.mem_map.mp ht
    exact hearlier x hx
  · intro watched calls hwatched
    have hsame := queryValue_of_single (s := s.mapState (·, calls)) (b := b.observed) hwatched
      (hnoted calls)
    rw [hsame]
    simp only [List.map_append, List.map_map]
    rfl

end Runs

end Broker

def Host.storing (value : Nat → UInt32 × ByteArray) : Host Nat where
  perform := fun r w =>
    match r with
    | .queryValue _ _ _ size =>
      (⟨if size.toNat < (value w).2.size then Win32.moreData else Win32.success, (value w).1,
        UInt32.ofNat (value w).2.size, (value w).2⟩, w + 1)
    | r => ((HostScript.perform r {}).1, w)
  lastError := fun _ => 0
  processHeap := 0
  memory := fun _ _ => []

namespace Host

variable {value : Nat → UInt32 × ByteArray}

theorem storing_storesValue (h : ∀ w, (value w).2.size < 0x100000000) (key : RawHandle)
    (name : List UInt16) : (storing value).StoresValue key name (fun w => some (value w)) := by
  have hsize : ∀ w, (UInt32.ofNat (value w).2.size).toNat = (value w).2.size := by
    intro w
    have := h w
    rw [UInt32.toNat_ofNat']
    omega
  constructor
  · intro t hnone
    cases hnone
  · intro t type data hsome hshort
    obtain ⟨htype, hdata⟩ := Prod.mk.inj (Option.some.inj hsome)
    subst hdata
    exact ⟨if_pos hshort, hsize t.before⟩
  · intro t type data hsome hfits
    obtain ⟨htype, hdata⟩ := Prod.mk.inj (Option.some.inj hsome)
    subst hdata
    exact ⟨if_neg (Nat.not_lt.mpr hfits), htype, hsize t.before, ByteArray.extract_zero_size⟩

end Host

namespace Broker

/-- A text of 300 bytes, then binary data of 600 bytes, then a number for good. -/
def changingValue (w : Nat) : UInt32 × ByteArray :=
  if w = 0 then (RegistryType.string, Bytes.replicate 300 0x41)
  else if w = 1 then (RegistryType.binary, Bytes.replicate 600 0xFF)
  else (RegistryType.dword, ⟨#[7, 0, 0, 0]⟩)

theorem size_changingValue_le (w : Nat) : (changingValue w).2.size ≤ 600 := by
  unfold changingValue
  split
  · exact Nat.le_trans (Nat.le_of_eq (Bytes.size_replicate 300 0x41)) (by decide)
  · split
    · exact Nat.le_of_eq (Bytes.size_replicate 600 0xFF)
    · decide

def ofChangingValue : Broker Nat :=
  ⟨Host.storing changingValue, ⟨fun _ => true⟩, .ofSettings none none⟩

theorem ofChangingValue_storesValue (key : RawHandle) (name : List UInt16) :
    ofChangingValue.host.StoresValue key name (fun w => some (changingValue w)) :=
  Host.storing_storesValue (fun w => Nat.lt_of_le_of_lt (size_changingValue_le w) (by decide)) key
    name

/-- The text makes 512 bytes of 256. The data that takes its place outgrows these as well, and the
number fits what it makes of them. -/
theorem exists_course_changingValue (key : RawHandle) (name : List UInt16) {lent : Buffer}
    (hlent : lent.capacity = 256) :
    ∃ earlier last, Course ofChangingValue.policy ofChangingValue.allocator
      (ofChangingValue.valueCall key name) ⟨lent, (0, 0)⟩ earlier last ∧
        last.left.state.1 = 3 := by
  have hstored := ofChangingValue_storesValue key name
  have halloc : ofChangingValue.allocator.Serves ofChangingValue.policy.ceiling :=
    Allocator.serves_of_provides (by decide)
  have htext : lent.capacity < (Bytes.replicate 300 0x41).size ∧
      ofChangingValue.policy.target? lent.capacity (Bytes.replicate 300 0x41).size =
        some 512 := by
    rw [hlent, Bytes.size_replicate]
    decide
  obtain ⟨c, hc, hgrown⟩ :=
    exists_enlarged_of_short (u := ⟨lent, (0, 0)⟩) hstored halloc rfl htext.1 htext.2
  rw [hlent] at hgrown
  have hdata : c.capacity < (Bytes.replicate 600 0xFF).size ∧
      ofChangingValue.policy.target? c.capacity (Bytes.replicate 600 0xFF).size = some 1024 := by
    rw [hgrown, Bytes.size_replicate]
    decide
  obtain ⟨d, hd, hgrown'⟩ :=
    exists_enlarged_of_short (u := ⟨c, (1, 1)⟩) hstored halloc rfl hdata.1 hdata.2
  obtain ⟨a, ha, hcode, -⟩ := attempt_of_held (u := ⟨d, (2, 3)⟩) hstored rfl (by
    rw [hgrown', hgrown]
    decide)
  exact ⟨_, _, .again _ hc (.again _ hd (.last _
    (SizingPolicy.not_enlarged_of_signal ha hcode (by decide)))), rfl⟩

/-- The third call decides, which is the first that finds the number. -/
theorem queryValue_reads_one_value_storing :
    let key : Handle Nat := ofChangingValue.host.own .registryKey 5
    key.borrow = .ok 5 ∧
      ofChangingValue.host.StoresValue 5 (Utf16.encodeTerminated "Name")
        (fun w => some (changingValue w)) ∧
      ∃ e, ofChangingValue.queryValue key "Name" ⟨⟨{}, []⟩, 0⟩ = some e ∧
        e.value = .returned (some (.dword 7)) ∧ e.state.state = 3 := by
  intro key
  have hkey : key.borrow = .ok 5 := rfl
  have hstored := ofChangingValue_storesValue 5 (Utf16.encodeTerminated "Name")
  obtain ⟨e, earlier, last, he, htrials, -, hreads, -⟩ :=
    queryValue_reads_one_value ofChangingValue hkey hstored
      (Allocator.serves_of_provides (by decide)) ⟨⟨{}, []⟩, 0⟩
  have hcalls : e.state.state = 3 := by
    let lent : Buffer := Buffer.empty.extend 256 (by decide)
    have hlease : Pool.acquire ⟨fun _ => true⟩ valueBytes ⟨{}, []⟩ = (.ok lent, ⟨{}, []⟩) := rfl
    obtain ⟨attempts, final, hcourse, hfinal⟩ := exists_course_changingValue 5
      (Utf16.encodeTerminated "Name") (Buffer.capacity_extend_empty 256 (by decide))
    obtain ⟨read, decoded, hread, hrun⟩ := Session.SingleRun.exists_of_course
      (s := ⟨⟨{}, []⟩, (0, 0)⟩) decodeValue hlease hcourse
    have hstate := hrun.verdict.state_eq fun _ _ _ => rfl
    cases he.symm.trans (queryValue_of_single (s := ⟨⟨{}, []⟩, 0⟩) hkey hread)
    exact (congrArg Prod.fst hstate).trans hfinal
  have hlast : last.before = 2 := Nat.succ.inj (htrials.after_last.trans hcalls)
  have hnumber : some (changingValue last.before) = some (4, ⟨#[7, 0, 0, 0]⟩) := by
    rw [hlast]
    rfl
  refine ⟨hkey, hstored, e, he, ?_, hcalls⟩
  generalize e.value = outcome at hreads
  cases hreads with
  | missing hnone => cases hnone
  | read hsome _ hdecode =>
    cases hnumber.symm.trans hsome
    cases hdecode
    rfl
  | unreadable hsome _ hdecode =>
    cases hnumber.symm.trans hsome
    cases hdecode
  | refused hsome _ hlarge _ _ =>
    cases hnumber.symm.trans hsome
    exact absurd hlarge (by decide)

end Broker

end NativeResource

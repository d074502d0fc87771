import NativeResource.Proofs.Broker.Naming
import NativeResource.Proofs.Broker.Subkeys
import NativeResource.Proofs.Registry.Cutting
/-!
Which name reaches the system. Texts that a null ends are cut at their first null character and
reach the system unchanged up to there; so a text without one is told apart from every other. Paths
of objects are counted instead: they reach the system with their nulls, and those whose bytes do not
fit in 16 bits do not reach it at all.
-/
namespace NativeResource

variable {σ ω : Type}

namespace Text

theorem all_ne_null {cs : List Char} (h : '\x00' ∉ cs) :
    ∀ c ∈ cs, decide (c ≠ '\x00') = true := by
  intro c hc
  rw [decide_eq_true_eq]
  rintro rfl
  exact h hc

theorem beforeNull_of_nullFree {s : String} (h : Utf16.NullFree s) : beforeNull s = s := by
  rw [beforeNull, List.takeWhile_eq_self_iff.mpr (all_ne_null h), String.ofList_toList]

theorem nullFree_beforeNull (s : String) : Utf16.NullFree (beforeNull s) := by
  rw [Utf16.NullFree, beforeNull, String.toList_ofList]
  intro hmem
  have hkept := List.all_eq_true.mp List.all_takeWhile _ hmem
  exact absurd hkept (by decide)

end Text

namespace Utf16

/-- The units of a text up to the first null encode what stands before its first null character. -/
theorem beforeNull_encodeTerminated (s : String) :
    beforeNull (encodeTerminated s) = encode (Text.beforeNull s) := by
  by_cases h : '\x00' ∈ s.toList
  · obtain ⟨front, rest, hs, hfront⟩ := List.eq_append_cons_of_mem h
    have hcut : Text.beforeNull s = String.ofList front := by
      rw [Text.beforeNull, hs, List.takeWhile_append_of_pos (Text.all_ne_null hfront),
        List.takeWhile_cons_of_neg (by decide), List.append_nil]
    have hfree : NullFree (String.ofList front) := by
      rwa [NullFree, String.toList_ofList]
    have hunits : encodeTerminated s =
        encode (String.ofList front) ++ 0 :: (rest.flatMap encodeChar ++ [0]) := by
      simp only [encodeTerminated, encode, hs, String.toList_ofList, List.flatMap_append,
        List.flatMap_cons, List.append_assoc]
      rfl
    rw [hcut, hunits, beforeNull_append_zero (zero_notMem_encode hfree)]
  · rw [encodeTerminated, beforeNull_append_zero (zero_notMem_encode h),
      Text.beforeNull_of_nullFree h]

theorem decode_beforeNull_encodeTerminated (s : String) :
    decode (beforeNull (encodeTerminated s)) = Text.beforeNull s := by
  rw [beforeNull_encodeTerminated, decode_encode]

theorem decode_beforeNull_encodeTerminated_eq_iff (s : String) :
    decode (beforeNull (encodeTerminated s)) = s ↔ NullFree s := by
  rw [decode_beforeNull_encodeTerminated]
  constructor
  · intro h
    rw [← h]
    exact Text.nullFree_beforeNull s
  · exact Text.beforeNull_of_nullFree

theorem beforeNull_encodeTerminated_injective {s t : String} (hs : NullFree s) (ht : NullFree t)
    (h : beforeNull (encodeTerminated s) = beforeNull (encodeTerminated t)) : s = t := by
  rw [← (decode_beforeNull_encodeTerminated_eq_iff s).mpr hs, h,
    (decode_beforeNull_encodeTerminated_eq_iff t).mpr ht]

end Utf16

def CountedName.counted (name : CountedName) : List UInt16 :=
  name.units.take (name.length.toNat / 2)

/-- The units that name something to a call: those before the first null, or those that are
counted. -/
def Request.nameUnits? : Request → Option (List UInt16)
  | .createFile name .. | .openKey _ name .. | .queryValue _ name .. | .openSystemStore _ name =>
    some (Utf16.beforeNull name)
  | .openDirectoryObject _ attributes | .openSymbolicLink _ attributes =>
    some attributes.name.counted
  | _ => none

theorem ObjectAttributes.exists_ofPath? {path : String}
    (h : (Utf16.encode path).length ≤ 32767) :
    ∃ attributes, ofPath? path = some attributes ∧ attributes.name.units = Utf16.encode path ∧
      attributes.name.length.toNat = 2 * (Utf16.encode path).length ∧
      attributes.name.counted = Utf16.encode path := by
  have hcount : (UInt16.ofNat ((Utf16.encode path).length * 2)).toNat =
      2 * (Utf16.encode path).length := by
    rw [UInt16.toNat_ofNat']
    omega
  refine ⟨_, if_pos h, rfl, hcount, ?_⟩
  rw [CountedName.counted, hcount, Nat.mul_div_cancel_left _ Nat.zero_lt_two, List.take_length]

def Request.countedName? : Request → Option CountedName
  | .openDirectoryObject _ attributes | .openSymbolicLink _ attributes => some attributes.name
  | _ => none

namespace Acquisition

/-- What an acquisition passes that has a null behind it: a path, or the units of a text. -/
def terminatedName? : Acquisition σ → Option (List UInt16)
  | file path .. => some path.terminated
  | registryKey _ subkey _ => some (Utf16.encodeTerminated subkey)
  | systemStore name => some (Utf16.encodeTerminated name)
  | _ => none

def countedPath? : Acquisition σ → Option String
  | directoryObject path _ | linkObject path _ => some path
  | _ => none

variable {host : Host ω} {a : Acquisition (ω × List Exchange)} {r : Request} {text : String}
  {name : List UInt16}

theorem calls_perform (h : a.request? host.observed.processHeap = some r)
    (w : ω × List Exchange) :
    ∃ x, x.request = r ∧ (a.perform host.observed w).state.2 = x :: w.2 := by
  rw [(perform_of_some h w).1]
  exact ⟨_, rfl, host.observed_calls r w⟩

theorem exists_call_terminated (ha : a.terminatedName? = some name) (hlive : a.orphaned = false)
    (host : Host ω) (w : ω × List Exchange) :
    ∃ x, (a.perform host.observed w).state.2 = x :: w.2 ∧
      x.request.nameUnits? = some (Utf16.beforeNull name) := by
  have hrequest : ∃ r, a.request? host.observed.processHeap = some r ∧
      r.nameUnits? = some (Utf16.beforeNull name) := by
    cases a with
    | registryKey parent subkey access =>
      cases ha
      rw [orphaned] at hlive
      exact ⟨_, if_neg (Bool.eq_false_iff.mp hlive), rfl⟩
    | file | systemStore =>
      cases ha
      exact ⟨_, rfl, rfl⟩
    | directoryObject | linkObject | processToken | heapBlock | globalBlock => cases ha
  obtain ⟨r, hr, hunits⟩ := hrequest
  obtain ⟨x, rfl, hcalls⟩ := calls_perform hr w
  exact ⟨x, hcalls, hunits⟩

theorem exists_call_counted (ha : a.countedPath? = some text)
    (hlength : (Utf16.encode text).length ≤ 32767) (host : Host ω) (w : ω × List Exchange) :
    ∃ x name, (a.perform host.observed w).state.2 = x :: w.2 ∧
      x.request.countedName? = some name ∧ name.units = Utf16.encode text ∧
      name.length.toNat = 2 * (Utf16.encode text).length ∧
      x.request.nameUnits? = some (Utf16.encode text) := by
  obtain ⟨attributes, hpath, hunits, hcount, hcounted⟩ := ObjectAttributes.exists_ofPath? hlength
  have hrequest : ∃ r, a.request? host.observed.processHeap = some r ∧
      r.countedName? = some attributes.name ∧ r.nameUnits? = some attributes.name.counted := by
    cases a with
    | directoryObject | linkObject =>
      cases ha
      exact ⟨_, congrArg (Option.map _) hpath, rfl, rfl⟩
    | file | registryKey | processToken | systemStore | heapBlock | globalBlock => cases ha
  obtain ⟨r, hr, hname, hnamed⟩ := hrequest
  obtain ⟨x, rfl, hcalls⟩ := calls_perform hr w
  exact ⟨x, attributes.name, hcalls, hname, hunits, hcount, hcounted ▸ hnamed⟩

theorem perform_of_long_path (ha : a.countedPath? = some text)
    (hlength : 32767 < (Utf16.encode text).length) (host : Host (ω × List Exchange))
    (w : ω × List Exchange) :
    a.perform host w = ⟨.error ⟨.pathTooLong, some text⟩, w, []⟩ := by
  have hpath : ObjectAttributes.ofPath? text = none := if_neg (Nat.not_le.mpr hlength)
  cases a with
  | directoryObject path access =>
    cases ha
    exact Host.openObject_of_none hpath
      (fun attributes => host.ask (.openDirectoryObject access attributes)) w
  | linkObject path access =>
    cases ha
    exact Host.openObject_of_none hpath
      (fun attributes => host.ask (.openSymbolicLink access attributes)) w
  | file | registryKey | processToken | systemStore | heapBlock | globalBlock => cases ha

end Acquisition

theorem Trials.exists_made {host : Host ω} {raw : RawHandle} {name : List UInt16}
    {w w' : ω × List Exchange} {trials : List (Trial (ω × List Exchange))}
    (h : Trials host.observed raw name w trials w') :
    ∃ made : List Exchange, w'.2 = made.reverse ++ w.2 ∧
      made.map Exchange.request = trials.map (Trial.request raw name) := by
  induction h with
  | nil w => exact ⟨[], rfl, rfl⟩
  | @cons t rest w' _ ih =>
    obtain ⟨made, hmade, hrequests⟩ := ih
    refine ⟨⟨t.request raw name, (host.perform (t.request raw name) t.before.1).1⟩ :: made, ?_, ?_⟩
    · rw [hmade, Trial.after, host.observed_calls, List.reverse_cons, List.append_assoc]
      rfl
    · rw [List.map_cons, List.map_cons, hrequests]

namespace Broker

variable {b : Broker ω} {key : Handle (ω × List Exchange)} {raw : RawHandle} {text : String}

theorem exists_queryValue_named (b : Broker ω) (hkey : key.borrow = .ok raw) (text : String)
    (s : Session (ω × List Exchange)) :
    ∃ (e : Effect (Session (ω × List Exchange)) (Outcome (Option RegistryValue)))
        (made : List Exchange),
      b.observed.queryValue key text s = some e ∧ s.Made e.state made ∧
      (∀ x ∈ made, x.request.nameUnits? =
        some (Utf16.beforeNull (Utf16.encodeTerminated text))) ∧
      ∀ buffer rest, s.pool.acquire b.allocator valueBytes = (.ok buffer, rest) → made ≠ [] := by
  let units := Utf16.encodeTerminated text
  obtain ⟨e, he, ⟨f, rest, hrefused, rfl⟩ | ⟨buffer, rest, earlier, v, decoded, -, hrun, -⟩⟩ :=
    Session.exists_singleRun b.policy b.allocator valueBytes decodeValue
      (neverShrinks_valueCall b.observed raw units) ⟨s.pool, (s.state, 0)⟩
  · refine ⟨_, [], queryValue_of_single hkey he, rfl, nofun, ?_⟩
    intro buffer rest' hleased
    cases hrefused.symm.trans hleased
  · have hcourse := hrun.course
    have hstate := hrun.verdict.state_eq fun _ _ _ => rfl
    obtain ⟨made, hmade, hrequests⟩ := Trials.exists_made (trials_of_course hcourse)
    refine ⟨_, made, queryValue_of_single hkey he, ?_, ?_, ?_⟩
    · rw [Session.Made, hstate]
      exact hmade
    · intro x hx
      have hmem := List.mem_map_of_mem (f := Exchange.request) hx
      rw [hrequests] at hmem
      obtain ⟨t, -, ht⟩ := List.mem_map.mp hmem
      rw [← ht]
      rfl
    · rintro - - - rfl
      simp at hrequests

/-- How the operations of a broker tell the system by name what they are about. -/
structure NamesByText (b : Broker ω) : Prop where
  terminated : ∀ (a : Acquisition (ω × List Exchange)) name w, a.terminatedName? = some name →
    a.orphaned = false → ∃ x, (a.perform b.host.observed w).state.2 = x :: w.2 ∧
      x.request.nameUnits? = some (Utf16.beforeNull name)
  value : ∀ (key : Handle (ω × List Exchange)) raw text s, key.borrow = .ok raw →
    ∃ (e : Effect (Session (ω × List Exchange)) (Outcome (Option RegistryValue)))
        (made : List Exchange),
      b.observed.queryValue key text s = some e ∧ s.Made e.state made ∧
      (∀ x ∈ made, x.request.nameUnits? =
        some (Utf16.beforeNull (Utf16.encodeTerminated text))) ∧
      ∀ buffer rest, s.pool.acquire b.allocator valueBytes = (.ok buffer, rest) → made ≠ []
  counted : ∀ (a : Acquisition (ω × List Exchange)) path w, a.countedPath? = some path →
    (Utf16.encode path).length ≤ 32767 →
    ∃ x name, (a.perform b.host.observed w).state.2 = x :: w.2 ∧
      x.request.countedName? = some name ∧ name.units = Utf16.encode path ∧
      name.length.toNat = 2 * (Utf16.encode path).length ∧
      x.request.nameUnits? = some (Utf16.encode path)
  uncounted : ∀ (a : Acquisition (ω × List Exchange)) path w, a.countedPath? = some path →
    32767 < (Utf16.encode path).length →
    ∃ f, a.perform b.host.observed w = ⟨.error f, w, []⟩ ∧ f.kind = .invalidArgument ∧
      f.context = some path

/-- What a name reaches is decided by its text alone. Where a null ends it, the system sees the
text as far as its first null character, so the whole of it exactly if it has none, and two texts
without one are never the same name. Where its units are counted, the system sees all of them, or
nothing at all if they are too many to be counted. -/
theorem text_decides_name :
    (∀ s, Utf16.decode (Utf16.beforeNull (Utf16.encodeTerminated s)) = Text.beforeNull s) ∧
    (∀ s, Utf16.decode (Utf16.beforeNull (Utf16.encodeTerminated s)) = s ↔ Utf16.NullFree s) ∧
    (∀ s t, Utf16.NullFree s → Utf16.NullFree t → s ≠ t →
      Utf16.beforeNull (Utf16.encodeTerminated s) ≠ Utf16.beforeNull (Utf16.encodeTerminated t)) ∧
    ∀ {ω : Type} (b : Broker ω), b.NamesByText := by
  refine ⟨Utf16.decode_beforeNull_encodeTerminated,
    Utf16.decode_beforeNull_encodeTerminated_eq_iff, ?_, ?_⟩
  · intro s t hs ht hne hsame
    exact hne (Utf16.beforeNull_encodeTerminated_injective hs ht hsame)
  · intro ω b
    constructor
    · intro a name w ha hlive
      exact Acquisition.exists_call_terminated ha hlive b.host w
    · intro key raw text s hkey
      exact b.exists_queryValue_named hkey text s
    · intro a path w ha hlength
      exact Acquisition.exists_call_counted ha hlength b.host w
    · intro a path w ha hlength
      exact ⟨_, Acquisition.perform_of_long_path ha hlength b.host.observed w, rfl, rfl⟩

/-- A null cuts the name of a subkey, but not the path of an object. -/
theorem text_decides_name_cut :
    let b : Broker HostScript := ⟨HostScript.host 0, ⟨fun _ => true⟩, {}⟩
    let root := b.host.observed.rootKey .localMachine
    let key : Acquisition (HostScript × List Exchange) := .registryKey root "A\x00B" 1
    let object : Acquisition (HostScript × List Exchange) := .directoryObject "A\x00B" 1
    (∃ x, (key.perform b.host.observed ({}, [])).state.2 = [x] ∧
        x.request.nameUnits? = some [0x41]) ∧
      ∃ x, (object.perform b.host.observed ({}, [])).state.2 = [x] ∧
        x.request.nameUnits? = some [0x41, 0, 0x42] := by
  intro b root key object
  obtain ⟨-, -, -, hnames⟩ := text_decides_name
  obtain ⟨x, hcalls, hunits⟩ := (hnames b).terminated key _ ({}, []) rfl rfl
  obtain ⟨y, name, hobject, -, -, -, hcounted⟩ :=
    (hnames b).counted object "A\x00B" ({}, []) rfl (by decide)
  exact ⟨⟨x, hcalls, hunits⟩, y, hobject, hcounted⟩

end Broker

end NativeResource

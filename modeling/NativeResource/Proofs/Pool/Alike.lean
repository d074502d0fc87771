import NativeResource.Proofs.Buffer.Reading
import NativeResource.Proofs.Pool.Conservation
import NativeResource.Sizing.Policy
/-!
Buffers that read alike, and pools of buffers of the same capacities. What is not read of a buffer,
the bytes past its length, has no part in what a pool does: alike pools serve a request alike, take
back alike buffers alike, and stay alike, whatever was left in the buffers that they retain.
-/
namespace NativeResource

namespace Buffer

variable {alloc : Allocator} {n : Nat} {b c : Buffer}

/-- The two buffers have room for as much and read the same; what lies past the length may
differ. -/
structure Alike (b c : Buffer) : Prop where
  capacity : b.capacity = c.capacity
  contents : b.contents = c.contents

inductive ServedAlike : Except Failure Buffer → Except Failure Buffer → Prop where
  | ok {b c : Buffer} : b.Alike c → ServedAlike (.ok b) (.ok c)
  | error (f : Failure) : ServedAlike (.error f) (.error f)

theorem contents_ext (hlength : b.length = c.length)
    (hget : ∀ i < b.length, Bytes.get b.bytes i = Bytes.get c.bytes i) :
    b.contents = c.contents := by
  apply ByteArray.ext
  apply Array.ext
  · rw [ByteArray.size_data, ByteArray.size_data, size_contents, size_contents, hlength]
  · intro i hb hc
    have hi : i < b.length := b.size_contents ▸ hb
    have hsame := hget i hi
    rw [← contents_get b hi, ← contents_get c (hlength ▸ hi), Bytes.get_eq, Bytes.get_eq,
      Array.getElem?_eq_getElem hb, Array.getElem?_eq_getElem hc] at hsame
    exact hsame

namespace Alike

theorem refl (b : Buffer) : b.Alike b := ⟨rfl, rfl⟩

theorem length (h : b.Alike c) : b.length = c.length := by
  rw [← size_contents, h.contents, size_contents]

theorem units (h : b.Alike c) : b.units = c.units := by
  rw [units_eq_ofBytes, units_eq_ofBytes, contentsList, h.contents, contentsList]

theorem text (h : b.Alike c) : b.text = c.text := by
  rw [Buffer.text, h.units, Buffer.text]

theorem of_length_zero (hcapacity : b.capacity = c.capacity) (hb : b.length = 0)
    (hc : c.length = 0) : b.Alike c := by
  refine ⟨hcapacity, contents_ext (hb.trans hc.symm) ?_⟩
  intro i hi
  omega

theorem clear (h : b.capacity = c.capacity) : b.clear.Alike c.clear :=
  of_length_zero h rfl rfl

theorem setLength (hcapacity : b.capacity = c.capacity)
    (hget : n ≤ b.capacity → ∀ i < n, Bytes.get b.bytes i = Bytes.get c.bytes i) :
    ServedAlike (b.setLength n) (c.setLength n) := by
  by_cases hfits : n ≤ b.capacity
  · obtain ⟨b', hb, hlength, hbytes⟩ := setLength_of_le hfits
    obtain ⟨c', hc, hlength', hbytes'⟩ := setLength_of_le (hcapacity ▸ hfits)
    rw [hb, hc]
    refine .ok ⟨?_, contents_ext (hlength.trans hlength'.symm) ?_⟩
    · rw [capacity_of_setLength hb, capacity_of_setLength hc, hcapacity]
    · rw [hlength, hbytes, hbytes']
      exact hget hfits
  · have hlarge := Nat.lt_of_not_le hfits
    rw [setLength_of_lt hlarge, setLength_of_lt (hcapacity ▸ hlarge), hcapacity]
    exact .error _

theorem extend (h : b.Alike c) (hmax : roundToWord n ≤ Allocator.largestBlock) :
    (b.extend n hmax).Alike (c.extend n hmax) := by
  have hlength : (b.extend n hmax).length = (c.extend n hmax).length := h.length
  refine ⟨?_, contents_ext hlength ?_⟩
  · rw [capacity_extend, capacity_extend, h.capacity]
  · intro i hi
    have hib : i < b.length := hi
    have hic : i < c.length := h.length ▸ hib
    have hb := b.length_le
    have hc := c.length_le
    simp only [Buffer.extend, Bytes.get_append]
    rw [if_pos (by omega), if_pos (by omega), ← contents_get b hib, h.contents,
      contents_get c hic]

theorem reserve (alloc : Allocator) (n : Nat) (h : b.Alike c) :
    ServedAlike (b.reserve alloc n) (c.reserve alloc n) := by
  rw [reserve_eq, reserve_eq, h.capacity]
  split
  · exact .ok h
  · split
    · exact .error _
    · exact .ok (h.extend _)

end Alike

end Buffer

theorem SizingPolicy.grow_alike {b c : Buffer} (p : SizingPolicy) (alloc : Allocator) (a : Answer)
    (h : b.Alike c) :
    Buffer.ServedAlike (p.grow alloc a b).result (p.grow alloc a c).result ∧
      (p.grow alloc a b).log = (p.grow alloc a c).log := by
  unfold grow
  rw [h.capacity]
  split
  · exact ⟨h.reserve alloc _, rfl⟩
  · exact ⟨.error _, rfl⟩

namespace Pool

variable {alloc : Allocator} {n i : Nat} {p q : Pool}

/-- The two pools have the same limits and retain buffers of the same capacities in the same
order; what the buffers hold may differ. -/
structure Alike (p q : Pool) : Prop where
  limits : p.limits = q.limits
  capacities : p.slots.map Buffer.capacity = q.slots.map Buffer.capacity

namespace Alike

theorem symm (h : p.Alike q) : q.Alike p := ⟨h.limits.symm, h.capacities.symm⟩

theorem size (h : p.Alike q) : p.size = q.size := by
  have hlength := congrArg List.length h.capacities
  rwa [List.length_map, List.length_map] at hlength

/-- Which slot serves a request is a matter of the capacities alone. -/
theorem select?_eq (h : p.Alike q) (n : Nat) : select? p.slots n = select? q.slots n := by
  rw [select?, select?, h.capacities]

theorem swapRemove (h : p.Alike q) (i : Nat) :
    Alike { p with slots := Pool.swapRemove p.slots i }
      { q with slots := Pool.swapRemove q.slots i } := by
  refine ⟨h.limits, ?_⟩
  rw [← swapRemove_map, ← swapRemove_map, h.capacities]

theorem acquire (alloc : Allocator) (n : Nat) (h : p.Alike q) :
    Buffer.ServedAlike (p.acquire alloc n).1 (q.acquire alloc n).1 ∧
      (p.acquire alloc n).2.Alike (q.acquire alloc n).2 := by
  have hselect := h.select?_eq n
  cases hp : select? p.slots n with
  | none =>
    have hq := hselect.symm.trans hp
    rw [acquire_of_nil (select?_eq_none_iff.mp hp), acquire_of_nil (select?_eq_none_iff.mp hq)]
    exact ⟨(Buffer.Alike.refl .empty).reserve alloc n, h⟩
  | some i =>
    have hq := hselect.symm.trans hp
    obtain ⟨b, hb, htake⟩ := take?_of_select? hp
    obtain ⟨c, hc, htake'⟩ := take?_of_select? hq
    have hcapacity : b.capacity = c.capacity := by
      have hslot := congrArg (·[i]?) h.capacities
      simp only [List.getElem?_map, hb, hc] at hslot
      exact Option.some.inj hslot
    simp only [Pool.acquire, htake, htake']
    exact ⟨(Buffer.Alike.clear hcapacity).reserve alloc n, h.swapRemove i⟩

theorem append {b c : Buffer} (h : p.Alike q) (hbc : b.capacity = c.capacity) :
    Alike { p with slots := p.slots ++ [b.clear] } { q with slots := q.slots ++ [c.clear] } := by
  refine ⟨h.limits, ?_⟩
  simp only [List.map_append, List.map_cons, List.map_nil, h.capacities, Buffer.capacity_clear,
    hbc]

theorem release {b c : Buffer} (h : p.Alike q) (hbc : b.capacity = c.capacity) :
    (p.release b).1.Alike (q.release c).1 ∧ (p.release b).2 = (q.release c).2 := by
  have hkept := h.append hbc
  rw [h.limits] at hkept
  unfold Pool.release
  rw [hbc, h.limits, h.size]
  split
  · exact ⟨h, rfl⟩
  · split
    · exact ⟨h, rfl⟩
    · split
      · exact ⟨hkept, rfl⟩
      · exact ⟨h, rfl⟩

end Alike

end Pool

end NativeResource

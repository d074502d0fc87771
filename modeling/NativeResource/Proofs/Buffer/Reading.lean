import NativeResource.Proofs.Buffer.History
/-!
What is read of a buffer. What was written to its start is read back as far as there is room, and
its meaningful bytes and its meaningful units are two views of one thing: reading the units off the
allocation is decoding the contents as bytes.
-/
namespace NativeResource

namespace Utf16

theorem ofBytes_eq_map (data : List UInt8) :
    ofBytes data = (List.range (data.length / 2)).map fun i =>
      ofBytePair (data[2 * i]?.getD 0) (data[2 * i + 1]?.getD 0) := by
  match data with
  | [] => rfl
  | [b] => simp
  | low :: high :: rest =>
    have hlength : (low :: high :: rest).length / 2 = rest.length / 2 + 1 := by
      simp only [List.length_cons]
      omega
    rw [ofBytes_cons_cons, ofBytes_eq_map rest, hlength, List.range_succ_eq_map, List.map_cons,
      List.map_map]
    rfl

end Utf16

theorem Bytes.extract_extract_zero (d : ByteArray) {m n : Nat} (h : n ≤ m) :
    (d.extract 0 m).extract 0 n = d.extract 0 n := by
  apply ByteArray.ext
  simp only [ByteArray.data_extract, Array.extract_extract, Nat.zero_add, Nat.min_eq_left h]

theorem Bytes.get_extract_zero (d : ByteArray) {n i : Nat} (h : i < n) :
    get (d.extract 0 n) i = get d i := by
  rw [get_eq, get_eq, ByteArray.data_extract, Array.getElem?_extract]
  split
  · rw [Nat.zero_add]
  · next hpast =>
    have hsize : d.data.size ≤ i := by
      simp only [ByteArray.size_data] at hpast ⊢
      omega
    rw [Array.getElem?_eq_none hsize]

namespace Buffer

/-- What is written starts with what the data written starts with, as far as there is room. -/
theorem extract_overlay_of_extract {b : Buffer} {written data : ByteArray}
    (hdata : written.extract 0 data.size = data) (hfits : data.size ≤ b.capacity) :
    (b.overlay written).bytes.extract 0 data.size = data := by
  have hlength := congrArg ByteArray.size hdata
  have hcut : data.size ≤ (written.extract 0 b.capacity).size := by
    rw [ByteArray.size_extract] at hlength ⊢
    omega
  have hroom : 0 + (written.extract 0 b.capacity).size ≤ b.capacity := by
    rw [ByteArray.size_extract]
    omega
  obtain ⟨c, hc, hbytes, -⟩ := write?_eq_some hroom
  rw [overlay, hc, Option.getD_some, hbytes, ← Bytes.extract_extract_zero _ hcut,
    Bytes.extract_overwrite, Bytes.extract_extract_zero _ hfits, hdata]

theorem size_contents (b : Buffer) : b.contents.size = b.length := by
  have hle := b.length_le
  simp only [contents, ByteArray.size_extract]
  omega

theorem length_contentsList (b : Buffer) : b.contentsList.length = b.length := by
  rw [contentsList, Bytes.toList, Array.length_toList, ByteArray.size_data, size_contents]

theorem getElem?_contentsList {b : Buffer} {i : Nat} (h : i < b.length) :
    b.contentsList[i]?.getD 0 = Bytes.get b.bytes i := by
  rw [← contents_get b h, Bytes.get_eq, contentsList, Bytes.toList, Array.getElem?_toList]

theorem units_eq_ofBytes (b : Buffer) : b.units = Utf16.ofBytes b.contentsList := by
  rw [Utf16.ofBytes_eq_map, length_contentsList, units, firstUnits]
  apply List.map_congr_left
  intro i hi
  have hlt : i < b.length / 2 := List.mem_range.mp hi
  rw [getElem?_contentsList (by omega), getElem?_contentsList (by omega)]
  rfl

theorem units_of_contents {b : Buffer} {w : List UInt16} (h : b.contents = Utf16.block w) :
    b.units = w := by
  have hbytes : b.contentsList = Utf16.toBytes w := by
    rw [contentsList, h]
    exact List.toList_toArray
  rw [units_eq_ofBytes, hbytes, Utf16.ofBytes_toBytes]

end Buffer

end NativeResource

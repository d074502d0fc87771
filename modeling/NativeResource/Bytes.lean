/-!
Blocks of bytes: filling, reading and overwriting. The list of a block's bytes is its view; each
operation comes with the view of its result.
-/
namespace NativeResource.Bytes

/-- `n` copies of one byte, built by doubling. -/
def replicate (n : Nat) (b : UInt8) : ByteArray :=
  if n < 16 then ⟨Array.replicate n b⟩
  else
    let half := replicate (n / 2) b
    if n % 2 = 0 then half ++ half else (half ++ half).push b
termination_by n

theorem data_replicate (n : Nat) (b : UInt8) : (replicate n b).data = Array.replicate n b := by
  fun_induction replicate n b with
  | case1 n h => rfl
  | case2 n h half hm ih =>
    rw [ByteArray.data_append, ih, Array.replicate_append_replicate]
    congr 1
    omega
  | case3 n h half hm ih =>
    rw [ByteArray.data_push, ByteArray.data_append, ih, Array.replicate_append_replicate,
      ← Array.replicate_succ]
    congr 1
    omega

theorem size_replicate (n : Nat) (b : UInt8) : (replicate n b).size = n := by
  simp [← ByteArray.size_data, data_replicate]

def get (d : ByteArray) (i : Nat) : UInt8 := if h : i < d.size then d[i] else 0

def toList (d : ByteArray) : List UInt8 := d.data.toList

def overwrite (d : ByteArray) (start : Nat) (source : ByteArray) : ByteArray :=
  source.copySlice 0 d start source.size

theorem data_overwrite (d : ByteArray) (start : Nat) (source : ByteArray) :
    (overwrite d start source).data =
      d.data.extract 0 start ++ source.data ++ d.data.extract (start + source.size) := by
  have h : source.data.extract 0 source.size = source.data := Array.extract_size
  simp [overwrite, ByteArray.copySlice, h]

theorem size_overwrite {d : ByteArray} {start : Nat} {source : ByteArray}
    (h : start + source.size ≤ d.size) : (overwrite d start source).size = d.size := by
  rw [← ByteArray.size_data, data_overwrite]
  simp
  omega

theorem extract_overwrite (d source : ByteArray) :
    (overwrite d 0 source).extract 0 source.size = source := by
  have hfront : d.data.extract 0 0 = #[] := by simp
  apply ByteArray.ext
  rw [ByteArray.data_extract, data_overwrite, hfront, Array.empty_append, Array.extract_append]
  simp [← ByteArray.size_data]

theorem get_eq (d : ByteArray) (i : Nat) : get d i = d.data[i]?.getD 0 := by
  unfold get
  split
  · next h => rw [Array.getElem?_eq_getElem h]; rfl
  · next h => rw [Array.getElem?_eq_none (Nat.le_of_not_lt h)]; rfl

theorem get_append (d e : ByteArray) (i : Nat) :
    get (d ++ e) i = if i < d.size then get d i else get e (i - d.size) := by
  simp only [get_eq, ByteArray.data_append, Array.getElem?_append, ByteArray.size_data]
  split <;> rfl

@[simp] theorem get_replicate_zero (n i : Nat) : get (replicate n 0) i = 0 := by
  rw [get_eq, data_replicate, Array.getElem?_replicate]
  split <;> rfl

theorem get_overwrite {d : ByteArray} {start : Nat} {source : ByteArray}
    (h : start + source.size ≤ d.size) (i : Nat) :
    get (overwrite d start source) i =
      if start ≤ i ∧ i < start + source.size then get source (i - start) else get d i := by
  have hsource : source.data.size = source.size := rfl
  have hsize : d.data.size = d.size := rfl
  have hfront : (d.data.extract 0 start).size = start := by
    rw [Array.size_extract]
    omega
  have hput : (d.data.extract 0 start ++ source.data).size = start + source.size := by
    rw [Array.size_append, hfront, hsource]
  simp only [get_eq, data_overwrite]
  by_cases hbefore : i < start
  · rw [if_neg (by omega), Array.getElem?_append_left (by omega),
      Array.getElem?_append_left (by omega), Array.getElem?_extract, if_pos (by omega),
      Nat.zero_add]
  · by_cases hwithin : i < start + source.size
    · rw [if_pos ⟨by omega, hwithin⟩, Array.getElem?_append_left (by omega),
        Array.getElem?_append_right (by omega), hfront]
    · have hskip : start + source.size + (i - (start + source.size)) = i := by omega
      rw [if_neg (by omega), Array.getElem?_append_right (by omega), hput, Array.getElem?_extract,
        hskip]
      split
      · rfl
      · rw [Array.getElem?_eq_none (by omega)]

end NativeResource.Bytes

import NativeResource.Text.Utf16
/-!
Encoding and decoding undo each other. A text reads back from its units, units read back from their
bytes, and neither reading looks past what it reads, so the same holds with anything behind.
-/
namespace NativeResource.Utf16

section Units

theorem toNat_ofNat_of_lt {n : Nat} (h : n < 65536) : (UInt16.ofNat n).toNat = n := by
  rw [UInt16.toNat_ofNat']
  omega

theorem decodeChars_cons_of_not_high {u : UInt16} (h : isHigh u = false) (w : List UInt16) :
    decodeChars (u :: w) = single u :: decodeChars w := by
  cases w with
  | nil => rfl
  | cons v rest => exact decodeChars_cons (by simp [h]) rest

/-- No character is a surrogate. -/
theorem toNat_lt_or_lt (c : Char) : c.toNat < 0xD800 ∨ (0xDFFF < c.toNat ∧ c.toNat < 0x110000) :=
  c.valid

theorem decodeChars_encodeChar_append (c : Char) (w : List UInt16) :
    decodeChars (encodeChar c ++ w) = c :: decodeChars w := by
  have hvalid := toNat_lt_or_lt c
  unfold encodeChar
  split
  · next hone =>
    have hu := toNat_ofNat_of_lt hone
    have hhigh : isHigh (UInt16.ofNat c.toNat) = false := by
      simp only [isHigh, hu, decide_eq_false_iff_not]
      omega
    have hlow : isLow (UInt16.ofNat c.toNat) = false := by
      simp only [isLow, hu, decide_eq_false_iff_not]
      omega
    rw [List.singleton_append, decodeChars_cons_of_not_high hhigh, single, hhigh, hlow, hu]
    simp
  · next htwo =>
    have hhigh := toNat_ofNat_of_lt (n := 0xD800 + (c.toNat - 0x10000) / 0x400) (by omega)
    have hlow := toNat_ofNat_of_lt (n := 0xDC00 + (c.toNat - 0x10000) % 0x400) (by omega)
    have hpair : (isHigh (UInt16.ofNat (0xD800 + (c.toNat - 0x10000) / 0x400)) &&
        isLow (UInt16.ofNat (0xDC00 + (c.toNat - 0x10000) % 0x400))) = true := by
      simp only [isHigh, isLow, hhigh, hlow, Bool.and_eq_true, decide_eq_true_eq]
      omega
    have hback : 0x10000 + (0xD800 + (c.toNat - 0x10000) / 0x400 - 0xD800) * 0x400 +
        (0xDC00 + (c.toNat - 0x10000) % 0x400 - 0xDC00) = c.toNat := by omega
    simp only [List.cons_append, List.nil_append]
    rw [decodeChars_pair hpair, pair, hhigh, hlow, hback, Char.ofNat_toNat]

theorem decodeChars_flatMap (cs : List Char) : decodeChars (cs.flatMap encodeChar) = cs := by
  induction cs with
  | nil => rfl
  | cons c cs ih => rw [List.flatMap_cons, decodeChars_encodeChar_append, ih]

theorem decode_encode (s : String) : decode (encode s) = s := by
  rw [decode, encode, decodeChars_flatMap, String.ofList_toList]

end Units

section Bytes

def block (w : List UInt16) : ByteArray := ⟨(toBytes w).toArray⟩

theorem length_toBytes (w : List UInt16) : (toBytes w).length = 2 * w.length := by
  induction w with
  | nil => rfl
  | cons u w ih =>
    simp only [toBytes, unitBytes, List.flatMap_cons, List.length_append, List.length_cons,
      List.length_nil] at ih ⊢
    omega

theorem size_block (w : List UInt16) : (block w).size = 2 * w.length := length_toBytes w

theorem getElem?_toBytes (w : List UInt16) (k : Nat) :
    (toBytes w)[2 * k]? = w[k]?.map (fun u => UInt8.ofNat u.toNat) ∧
      (toBytes w)[2 * k + 1]? = w[k]?.map (fun u => UInt8.ofNat (u.toNat / 256)) := by
  induction w generalizing k with
  | nil => exact ⟨rfl, rfl⟩
  | cons u w ih =>
    cases k with
    | zero => exact ⟨rfl, rfl⟩
    | succ k => exact ih k

theorem ofBytePair_unitBytes (u : UInt16) :
    ofBytePair (UInt8.ofNat u.toNat) (UInt8.ofNat (u.toNat / 256)) = u := by
  have hlt : u.toNat < 65536 := u.toNat_lt
  apply UInt16.toNat_inj.mp
  simp only [ofBytePair, UInt8.toNat_ofNat', UInt16.toNat_ofNat']
  omega

theorem ofBytesOnto_append (read more : List UInt16) (data : List UInt8) :
    ofBytesOnto (read ++ more) data = ofBytesOnto read data ++ more := by
  fun_induction ofBytesOnto read data with
  | case1 read low high rest ih =>
    rw [ofBytesOnto]
    exact ih
  | case2 read data h => rw [ofBytesOnto.eq_2 _ _ h]

theorem ofBytes_cons_cons (low high : UInt8) (rest : List UInt8) :
    ofBytes (low :: high :: rest) = ofBytePair low high :: ofBytes rest := by
  have h := ofBytesOnto_append [] [ofBytePair low high] rest
  rw [List.nil_append] at h
  rw [ofBytes, ofBytesOnto, h, List.reverse_append]
  rfl

@[simp] theorem ofBytes_nil : ofBytes [] = [] := rfl

@[simp] theorem ofBytes_single (b : UInt8) : ofBytes [b] = [] := rfl

theorem ofBytes_toBytes_append (w : List UInt16) (data : List UInt8) :
    ofBytes (toBytes w ++ data) = w ++ ofBytes data := by
  induction w with
  | nil => rfl
  | cons u w ih =>
    have hfront : toBytes (u :: w) ++ data =
        UInt8.ofNat u.toNat :: UInt8.ofNat (u.toNat / 256) :: (toBytes w ++ data) := rfl
    rw [hfront, ofBytes_cons_cons, ofBytePair_unitBytes, ih, List.cons_append]

theorem ofBytes_toBytes (w : List UInt16) : ofBytes (toBytes w) = w := by
  have h := ofBytes_toBytes_append w []
  rwa [List.append_nil, ofBytes_nil, List.append_nil] at h

end Bytes

end NativeResource.Utf16

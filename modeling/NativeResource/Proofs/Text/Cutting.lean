import Mathlib.Data.List.TakeWhile
import NativeResource.Proofs.Text.Nulls
/-!
Cutting and decoding. Surrogates that belong together may stand on both sides of a cut, but never
of a null: a null unit decodes to the null character, and nothing else does. So units may be cut
at their nulls and decoded, or decoded and cut at the null characters, with the same result.
-/
namespace NativeResource.Utf16

section Nulls

theorem single_ne_null {u : UInt16} (h : u ≠ 0) : single u ≠ '\x00' := by
  have hpos : u.toNat ≠ 0 := fun hzero => h (UInt16.toNat_inj.mp hzero)
  have hlt : u.toNat < 65536 := u.toNat_lt
  unfold single
  split
  · decide
  · next hsurrogate =>
    have hvalid : u.toNat.isValidChar := by
      simp only [isHigh, isLow, Bool.or_eq_true, decide_eq_true_eq] at hsurrogate
      simp only [Nat.isValidChar]
      omega
    intro hnull
    have hzero := congrArg Char.toNat hnull
    rw [Char.ofNat, dif_pos hvalid] at hzero
    exact hpos hzero

theorem pair_ne_null {high low : UInt16} (h : (isHigh high && isLow low) = true) :
    pair high low ≠ '\x00' := by
  simp only [isHigh, isLow, Bool.and_eq_true, decide_eq_true_eq] at h
  intro hnull
  have hzero := congrArg Char.toNat hnull
  rw [pair, Char.ofNat, dif_pos (.inr (by omega))] at hzero
  change 0x10000 + (high.toNat - 0xD800) * 0x400 + (low.toNat - 0xDC00) = 0 at hzero
  omega

theorem null_notMem_decodeChars {w : List UInt16} (h : 0 ∉ w) : '\x00' ∉ decodeChars w := by
  match w with
  | [] => exact nofun
  | [u] =>
    intro hmem
    exact single_ne_null (Ne.symm (List.ne_of_not_mem_cons h)) (List.mem_singleton.mp hmem).symm
  | u :: v :: rest =>
    have hu : u ≠ 0 := Ne.symm (List.ne_of_not_mem_cons h)
    have htail : 0 ∉ v :: rest := List.not_mem_of_not_mem_cons h
    cases hpair : isHigh u && isLow v with
    | true =>
      have hrest := null_notMem_decodeChars (List.not_mem_of_not_mem_cons htail)
      rw [decodeChars_pair hpair]
      exact List.not_mem_cons_of_ne_of_not_mem (Ne.symm (pair_ne_null hpair)) hrest
    | false =>
      have hrest := null_notMem_decodeChars htail
      rw [decodeChars_cons hpair]
      exact List.not_mem_cons_of_ne_of_not_mem (Ne.symm (single_ne_null hu)) hrest

theorem decodeChars_eq_nil_iff {w : List UInt16} : decodeChars w = [] ↔ w = [] := by
  constructor
  · intro h
    match w with
    | [] => rfl
    | [u] => cases h
    | u :: v :: rest =>
      cases hpair : isHigh u && isLow v with
      | true => rw [decodeChars_pair hpair] at h; cases h
      | false => rw [decodeChars_cons hpair] at h; cases h
  · rintro rfl
    rfl

/-- A null separates what is before it from what is behind it, also from a surrogate on either
side. -/
theorem decodeChars_append_zero (w rest : List UInt16) :
    decodeChars (w ++ 0 :: rest) = decodeChars w ++ '\x00' :: decodeChars rest := by
  match w with
  | [] => exact decodeChars_cons_of_not_high rfl rest
  | [u] =>
    have halone : (isHigh u && isLow 0) = false := Bool.and_false _
    rw [List.singleton_append, decodeChars_cons halone, decodeChars_cons_of_not_high rfl]
    rfl
  | u :: v :: w =>
    simp only [List.cons_append]
    cases hpair : isHigh u && isLow v with
    | true =>
      rw [decodeChars_pair hpair, decodeChars_pair hpair, decodeChars_append_zero w,
        List.cons_append]
    | false =>
      have hrest := decodeChars_append_zero (v :: w) rest
      rw [List.cons_append] at hrest
      rw [decodeChars_cons hpair, decodeChars_cons hpair, hrest, List.cons_append]

end Nulls

section Cuts

/-- Units are free of nulls, or they have a first one. -/
theorem null_induction {motive : List UInt16 → Prop} (free : ∀ w, 0 ∉ w → motive w)
    (cut : ∀ front rest, 0 ∉ front → motive rest → motive (front ++ 0 :: rest))
    (w : List UInt16) : motive w := by
  by_cases h : 0 ∈ w
  · obtain ⟨front, rest, hw, hfront⟩ := List.eq_append_cons_of_mem h
    have hshorter : rest.length < w.length := by
      rw [hw, List.length_append, List.length_cons]
      omega
    rw [hw]
    exact cut front rest hfront (null_induction free cut rest)
  · exact free w h
termination_by w.length

theorem splitOn_decodeChars (w : List UInt16) :
    (decodeChars w).splitOn '\x00' = (splitAtNulls w).map decodeChars := by
  induction w using null_induction with
  | free w h =>
    rw [splitAtNulls_of_notMem h, List.splitOn_eq_singleton (null_notMem_decodeChars h)]
    rfl
  | cut front rest h ih =>
    rw [decodeChars_append_zero, List.splitOn_append_cons_self, ih, splitAtNulls_append_zero h,
      List.splitOn_eq_singleton (null_notMem_decodeChars h)]
    rfl

theorem takeWhile_decodeChars (w : List UInt16) :
    (decodeChars w).takeWhile (· ≠ '\x00') = decodeChars (beforeNull w) := by
  have hfree : ∀ w, 0 ∉ w → ∀ c ∈ decodeChars w, decide (c ≠ '\x00') = true := by
    intro w h c hc
    rw [decide_eq_true_eq]
    rintro rfl
    exact null_notMem_decodeChars h hc
  by_cases h : 0 ∈ w
  · obtain ⟨front, rest, rfl, hfront⟩ := List.eq_append_cons_of_mem h
    rw [decodeChars_append_zero, List.takeWhile_append_of_pos (hfree front hfront),
      beforeNull_append_zero hfront, List.takeWhile_cons_of_neg (by decide), List.append_nil]
  · rw [List.takeWhile_eq_self_iff.mpr (hfree w h), beforeNull_of_notMem h]

theorem zero_notMem_of_mem_splitAtNulls {w piece : List UInt16} (h : piece ∈ splitAtNulls w) :
    0 ∉ piece := by
  induction w using null_induction with
  | free w hw =>
    rw [splitAtNulls_of_notMem hw, List.mem_singleton] at h
    exact h ▸ hw
  | cut front rest hfront ih =>
    rw [splitAtNulls_append_zero hfront] at h
    rcases List.mem_cons.mp h with rfl | h
    · exact hfront
    · exact ih h

end Cuts

end NativeResource.Utf16

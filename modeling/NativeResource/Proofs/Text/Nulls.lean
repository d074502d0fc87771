import NativeResource.Proofs.Text.RoundTrip
/-!
Nulls among units. Only the null character is encoded with a null, so texts without one can be
ended by a null or strung together by nulls and found again.
-/
namespace NativeResource.Utf16

variable {w rest : List UInt16}

def NullFree (s : String) : Prop := '\x00' ∉ s.toList

theorem zero_notMem_encodeChar {c : Char} (h : c ≠ '\x00') : 0 ∉ encodeChar c := by
  have hpos : c.toNat ≠ 0 := by
    intro hzero
    exact h (Char.toNat_inj.mp hzero)
  have hvalid := toNat_lt_or_lt c
  intro hmem
  unfold encodeChar at hmem
  split at hmem
  · next hone =>
    have hu := congrArg UInt16.toNat (List.mem_singleton.mp hmem)
    rw [toNat_ofNat_of_lt hone] at hu
    exact hpos hu.symm
  · next htwo =>
    have hhigh := toNat_ofNat_of_lt (n := 0xD800 + (c.toNat - 0x10000) / 0x400) (by omega)
    have hlow := toNat_ofNat_of_lt (n := 0xDC00 + (c.toNat - 0x10000) % 0x400) (by omega)
    have hzero : (0 : UInt16).toNat = 0 := rfl
    rcases List.mem_cons.mp hmem with hu | hmem
    · rw [← hu] at hhigh
      omega
    · rw [← List.mem_singleton.mp hmem] at hlow
      omega

theorem zero_notMem_encode {s : String} (h : NullFree s) : 0 ∉ encode s := by
  intro hmem
  obtain ⟨c, hc, hzero⟩ := List.mem_flatMap.mp hmem
  apply zero_notMem_encodeChar _ hzero
  rintro rfl
  exact h hc

theorem encode_ne_nil {s : String} (h : s ≠ "") : encode s ≠ [] := by
  intro hnil
  apply h
  rw [← decode_encode s, hnil]
  rfl

theorem beforeNull_append (h : 0 ∉ w) (rest : List UInt16) :
    beforeNull (w ++ rest) = w ++ beforeNull rest := by
  apply List.takeWhile_append_of_pos
  intro u hu
  rw [decide_eq_true_eq]
  rintro rfl
  exact h hu

theorem beforeNull_of_notMem (h : 0 ∉ w) : beforeNull w = w := by
  have hnil : beforeNull [] = [] := rfl
  have hall := beforeNull_append h []
  rwa [hnil, List.append_nil] at hall

theorem beforeNull_append_zero (h : 0 ∉ w) : beforeNull (w ++ 0 :: rest) = w := by
  rw [beforeNull_append h, beforeNull, List.takeWhile_cons_of_neg (by decide), List.append_nil]

theorem exists_splitAtNulls (w : List UInt16) :
    ∃ piece pieces, splitAtNulls w = piece :: pieces := by
  induction w with
  | nil => exact ⟨[], [], rfl⟩
  | cons u w ih =>
    obtain ⟨piece, pieces, h⟩ := ih
    have hstep : splitAtNulls (u :: w) = splitStep u (splitAtNulls w) := rfl
    rw [hstep, h, splitStep]
    split
    · exact ⟨_, _, rfl⟩
    · exact ⟨_, _, rfl⟩

theorem splitAtNulls_zero (rest : List UInt16) :
    splitAtNulls (0 :: rest) = [] :: splitAtNulls rest := by
  obtain ⟨piece, pieces, h⟩ := exists_splitAtNulls rest
  have hstep : splitAtNulls (0 :: rest) = splitStep 0 (splitAtNulls rest) := rfl
  rw [hstep, h]
  rfl

theorem splitAtNulls_of_notMem (h : 0 ∉ w) : splitAtNulls w = [w] := by
  induction w with
  | nil => rfl
  | cons u w ih =>
    have hstep : splitAtNulls (u :: w) = splitStep u (splitAtNulls w) := rfl
    have hu : ¬u = 0 := fun hzero => h (hzero ▸ List.mem_cons_self)
    rw [hstep, ih (fun hmem => h (List.mem_cons_of_mem u hmem)), splitStep, if_neg hu]

/-- A null closes the piece before it, and the splitting starts anew. -/
theorem splitAtNulls_append_zero (h : 0 ∉ w) :
    splitAtNulls (w ++ 0 :: rest) = w :: splitAtNulls rest := by
  induction w with
  | nil => exact splitAtNulls_zero rest
  | cons u w ih =>
    have hstep : splitAtNulls (u :: w ++ 0 :: rest) =
        splitStep u (splitAtNulls (w ++ 0 :: rest)) := rfl
    have hu : ¬u = 0 := fun hzero => h (hzero ▸ List.mem_cons_self)
    rw [hstep, ih (fun hmem => h (List.mem_cons_of_mem u hmem)), splitStep, if_neg hu]

end NativeResource.Utf16

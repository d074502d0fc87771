import NativeResource.Proofs.Registry.Storage
import NativeResource.Proofs.Text.Cutting
/-!
Registry texts and lists of texts, read off one decoding of all their units. A text ends at the
first null character, and a list at the first empty one of the pieces between null characters;
what is read this way is what comes of cutting the units first and decoding each piece.
-/
namespace NativeResource

namespace Text

def beforeNull (s : String) : String := String.ofList (s.toList.takeWhile (· ≠ '\x00'))

/-- The pieces between null characters that stand before the first empty one. -/
def nullSeparated (s : String) : List String :=
  ((s.toList.splitOn '\x00').takeWhile (· ≠ [])).map String.ofList

end Text

namespace Utf16

theorem unitBytes_ofBytePair (low high : UInt8) :
    unitBytes (ofBytePair low high) = [low, high] := by
  have hlow : low.toNat < 256 := low.toNat_lt
  have hhigh : high.toNat < 256 := high.toNat_lt
  have hunit : (ofBytePair low high).toNat = low.toNat + 256 * high.toNat :=
    toNat_ofNat_of_lt (by omega)
  have hfirst : UInt8.ofNat (low.toNat + 256 * high.toNat) = low := by
    apply UInt8.toNat_inj.mp
    rw [UInt8.toNat_ofNat']
    omega
  have hsecond : UInt8.ofNat ((low.toNat + 256 * high.toNat) / 256) = high := by
    apply UInt8.toNat_inj.mp
    rw [UInt8.toNat_ofNat']
    omega
  rw [unitBytes, hunit, hfirst, hsecond]

theorem exists_toBytes_append (data : List UInt8) :
    ∃ odd, data = toBytes (ofBytes data) ++ odd ∧ odd.length < 2 := by
  match data with
  | [] => exact ⟨[], rfl, Nat.zero_lt_two⟩
  | [b] => exact ⟨[b], rfl, Nat.one_lt_two⟩
  | low :: high :: rest =>
    obtain ⟨odd, hrest, hodd⟩ := exists_toBytes_append rest
    refine ⟨odd, ?_, hodd⟩
    rw [ofBytes_cons_cons, toBytes, List.flatMap_cons, unitBytes_ofBytePair, List.append_assoc]
    exact congrArg (low :: high :: ·) hrest

theorem decode_ne_empty {w : List UInt16} (h : w ≠ []) : decode w ≠ "" := by
  intro hempty
  have hchars := congrArg String.toList hempty
  rw [decode, String.toList_ofList] at hchars
  exact h (decodeChars_eq_nil_iff.mp hchars)

theorem nullFree_decode {w : List UInt16} (h : 0 ∉ w) : NullFree (decode w) := by
  rw [NullFree, decode, String.toList_ofList]
  exact null_notMem_decodeChars h

end Utf16

namespace RegistryValue

theorem textOf_eq_beforeNull (data : List UInt8) :
    textOf data = Text.beforeNull (Utf16.decode (Utf16.ofBytes data)) := by
  rw [textOf, Text.beforeNull, Utf16.decode, Utf16.decode, String.toList_ofList,
    Utf16.takeWhile_decodeChars]

theorem splitStrings_eq_nullSeparated (w : List UInt16) :
    splitStrings w = Text.nullSeparated (Utf16.decode w) := by
  -- Decoding neither empties a piece nor fills an empty one, so both lists end at the same piece.
  have hends : (fun cs => decide (cs ≠ [])) ∘ Utf16.decodeChars = fun piece => !piece.isEmpty := by
    funext piece
    cases piece with
    | nil => rfl
    | cons u rest =>
      have hne : Utf16.decodeChars (u :: rest) ≠ [] := fun hnil =>
        List.cons_ne_nil u rest (Utf16.decodeChars_eq_nil_iff.mp hnil)
      simp [hne]
  rw [Text.nullSeparated, Utf16.decode, String.toList_ofList, Utf16.splitOn_decodeChars,
    List.takeWhile_map, List.map_map, hends]
  rfl

theorem ne_empty_of_mem_splitStrings {w : List UInt16} {t : String} (h : t ∈ splitStrings w) :
    t ≠ "" ∧ Utf16.NullFree t := by
  obtain ⟨piece, hpiece, rfl⟩ := List.mem_map.mp h
  have hfull : (!piece.isEmpty) = true := List.all_eq_true.mp List.all_takeWhile piece hpiece
  have hcut : piece ∈ Utf16.splitAtNulls w := (List.takeWhile_sublist _).mem hpiece
  have hne : piece ≠ [] := by
    rintro rfl
    cases hfull
  exact ⟨Utf16.decode_ne_empty hne,
    Utf16.nullFree_decode (Utf16.zero_notMem_of_mem_splitAtNulls hcut)⟩

theorem splitStrings_intercalate {pieces : List (List UInt16)} {tail : List UInt16}
    (hne : pieces ≠ []) (hpieces : ∀ q ∈ pieces, 0 ∉ q ∧ q ≠ []) (htail : EndsList tail) :
    splitStrings ([0].intercalate pieces ++ tail) = pieces.map Utf16.decode := by
  cases pieces with
  | nil => exact absurd rfl hne
  | cons piece pieces => rw [splitStrings_eq_map, leadingPieces_intercalate hpieces htail]

/-- Texts and lists may be cut before or after decoding, whatever their units are: a list is the
texts before the first empty one between the nulls of its decoded units, and a text what stands
before the first null of them. So no text of a list is empty or has a null, and texts strung
together by nulls are found again whether none, one or two nulls end them. -/
theorem cutting_commutes_with_decoding :
    (∀ w, splitStrings w = Text.nullSeparated (Utf16.decode w)) ∧
    (∀ data, ∃ units odd, data = Utf16.toBytes units ++ odd ∧ odd.length < 2 ∧
      decode RegistryType.string data = .ok (.string (Text.beforeNull (Utf16.decode units)))) ∧
    (∀ w, ∀ t ∈ splitStrings w, t ≠ "" ∧ Utf16.NullFree t) ∧
    ∀ pieces tail, pieces ≠ [] → (∀ q ∈ pieces, 0 ∉ q ∧ q ≠ []) → EndsList tail →
      splitStrings ([0].intercalate pieces ++ tail) = pieces.map Utf16.decode := by
  refine ⟨splitStrings_eq_nullSeparated, ?_, fun w t => ne_empty_of_mem_splitStrings,
    fun pieces tail => splitStrings_intercalate⟩
  intro data
  obtain ⟨odd, hdata, hodd⟩ := Utf16.exists_toBytes_append data
  refine ⟨Utf16.ofBytes data, odd, hdata, hodd, ?_⟩
  rw [← textOf_eq_beforeNull]
  exact decode_string data

theorem cutting_commutes_with_decoding_lone :
    (∀ q ∈ [[0xD83D], [0xDE00, 0x41]], (0 : UInt16) ∉ q ∧ q ≠ []) ∧
      EndsList [0, 0, 0x42] ∧ splitStrings [0xD83D, 0, 0xDE00, 0x41, 0, 0, 0x42] =
        ["\uFFFD", "\uFFFDA"] := by
  have hpieces : ∀ q ∈ [[0xD83D], [0xDE00, 0x41]], (0 : UInt16) ∉ q ∧ q ≠ [] := by decide
  have htail : EndsList [0, 0, 0x42] := .inr (.inr ⟨[0x42], rfl⟩)
  have hsplit := cutting_commutes_with_decoding.2.2.2 _ _ (by decide) hpieces htail
  exact ⟨hpieces, htail, hsplit⟩

end RegistryValue

end NativeResource

import Mathlib.Algebra.Group.Nat.Defs
import NativeResource.Proofs.Text.Nulls
import NativeResource.Registry.Value
/-!
How values are stored. Each format says which bytes stand for a value, with what may follow them
unread; decoding finds the value again in all of them. It fails for unknown tags and for numbers
with too few bytes, and for nothing else.
-/
namespace NativeResource.RegistryValue

section Numbers

/-- A number in so many bytes, the lowest first. -/
def lowestFirst : (width n : Nat) → List UInt8
  | 0, _ => []
  | width + 1, n => UInt8.ofNat n :: lowestFirst width (n / 256)

def highestFirst (width n : Nat) : List UInt8 := (lowestFirst width n).reverse

theorem length_lowestFirst (width n : Nat) : (lowestFirst width n).length = width := by
  induction width generalizing n with
  | zero => rfl
  | succ width ih => rw [lowestFirst, List.length_cons, ih]

theorem length_highestFirst (width n : Nat) : (highestFirst width n).length = width := by
  rw [highestFirst, List.length_reverse, length_lowestFirst]

theorem littleEndian_lowestFirst {width n : Nat} (h : n < 256 ^ width) :
    littleEndian (lowestFirst width n) = n := by
  induction width generalizing n with
  | zero =>
    have hzero : n = 0 := by simpa using h
    rw [hzero]
    rfl
  | succ width ih =>
    have hdiv : n / 256 < 256 ^ width := by
      apply Nat.div_lt_of_lt_mul
      rwa [Nat.pow_succ, Nat.mul_comm] at h
    have hstep : littleEndian (lowestFirst (width + 1) n) =
        (UInt8.ofNat n).toNat + 256 * littleEndian (lowestFirst width (n / 256)) := rfl
    rw [hstep, ih hdiv, UInt8.toNat_ofNat']
    omega

theorem bigEndian_reverse (data : List UInt8) : bigEndian data.reverse = littleEndian data := by
  rw [bigEndian, littleEndian, List.foldl_reverse]
  simp only [Nat.add_comm]

theorem bigEndian_highestFirst {width n : Nat} (h : n < 256 ^ width) :
    bigEndian (highestFirst width n) = n := by
  rw [highestFirst, bigEndian_reverse, littleEndian_lowestFirst h]

variable {typeName : String} {width : Nat} {data more : List UInt8}

theorem leading_of_le (h : width ≤ data.length) :
    leading typeName width data = .ok (data.take width) := if_pos h

theorem leading_of_lt (h : data.length < width) :
    leading typeName width data = .error ⟨.shortNumber typeName data.length width, Option.none⟩ :=
  if_neg (Nat.not_le.mpr h)

theorem leading_append (h : data.length = width) :
    leading typeName width (data ++ more) = .ok data := by
  rw [leading_of_le (by simp [h]), ← h, List.take_left]

end Numbers

section Texts

/-- What may stand behind a text: nothing, an odd byte, or a null and anything behind it. -/
inductive TextEnd : List UInt8 → Prop where
  | nothing : TextEnd []
  | odd (b : UInt8) : TextEnd [b]
  | null (more : List UInt8) : TextEnd (0 :: 0 :: more)

/-- What may stand behind the last text of a list: nothing, the null that ends the text, or that
and another one with anything behind it. The empty list has no last text, so one null ends it. -/
inductive ListEnd : List String → List UInt8 → Prop where
  | nothing (texts : List String) : ListEnd texts []
  | emptyNull (more : List UInt8) : ListEnd [] (0 :: 0 :: more)
  | null (texts : List String) : texts ≠ [] → ListEnd texts [0, 0]
  | twoNulls (texts : List String) (more : List UInt8) :
      texts ≠ [] → ListEnd texts (0 :: 0 :: 0 :: 0 :: more)

def joined (texts : List String) : List UInt16 :=
  [0].intercalate (texts.map Utf16.encode)

variable {s : String} {texts : List String} {tail : List UInt8} {w : List UInt16}

theorem ofBytes_zero_zero (more : List UInt8) :
    Utf16.ofBytes (0 :: 0 :: more) = 0 :: Utf16.ofBytes more := Utf16.ofBytes_cons_cons 0 0 more

theorem textOf_stored (h : Utf16.NullFree s) (htail : TextEnd tail) :
    textOf (Utf16.toBytes (Utf16.encode s) ++ tail) = s := by
  have hfree := Utf16.zero_notMem_encode h
  have hcut : Utf16.beforeNull (Utf16.encode s ++ Utf16.ofBytes tail) = Utf16.encode s := by
    cases htail with
    | nothing | odd b =>
      have hnone : Utf16.encode s ++ [] = Utf16.encode s := List.append_nil _
      exact hnone.symm ▸ Utf16.beforeNull_of_notMem hfree
    | null more =>
      rw [ofBytes_zero_zero]
      exact Utf16.beforeNull_append_zero hfree
  rw [textOf, Utf16.ofBytes_toBytes_append, hcut, Utf16.decode_encode]

def EndsList (w : List UInt16) : Prop := w = [] ∨ w = [0] ∨ ∃ more, w = 0 :: 0 :: more

def leadingPieces (w : List UInt16) : List (List UInt16) :=
  (Utf16.splitAtNulls w).takeWhile (!·.isEmpty)

theorem leadingPieces_zero (w : List UInt16) : leadingPieces (0 :: w) = [] := by
  rw [leadingPieces, Utf16.splitAtNulls_zero]
  rfl

section Pieces

variable {piece : List UInt16} (hfree : 0 ∉ piece) (hpiece : piece ≠ [])
include hfree hpiece

theorem leadingPieces_of_notMem : leadingPieces piece = [piece] := by
  rw [leadingPieces, Utf16.splitAtNulls_of_notMem hfree]
  simp [hpiece]

theorem leadingPieces_append_zero (w : List UInt16) :
    leadingPieces (piece ++ 0 :: w) = piece :: leadingPieces w := by
  rw [leadingPieces, Utf16.splitAtNulls_append_zero hfree]
  simp [hpiece, leadingPieces]

theorem leadingPieces_last (hw : EndsList w) : leadingPieces (piece ++ w) = [piece] := by
  rcases hw with rfl | rfl | ⟨more, rfl⟩
  · rw [List.append_nil, leadingPieces_of_notMem hfree hpiece]
  · rw [leadingPieces_append_zero hfree hpiece]
    rfl
  · rw [leadingPieces_append_zero hfree hpiece, leadingPieces_zero]

end Pieces

/-- Pieces strung together by nulls are found again, each ended by the null behind it. -/
theorem leadingPieces_intercalate {piece : List UInt16} {pieces : List (List UInt16)}
    (hpieces : ∀ q ∈ piece :: pieces, 0 ∉ q ∧ q ≠ []) (hw : EndsList w) :
    leadingPieces ([0].intercalate (piece :: pieces) ++ w) = piece :: pieces := by
  induction pieces generalizing piece with
  | nil =>
    obtain ⟨hfree, hpiece⟩ := hpieces piece List.mem_cons_self
    have hone : [0].intercalate [piece] = piece := by simp [List.intercalate]
    rw [hone, leadingPieces_last hfree hpiece hw]
  | cons next pieces ih =>
    obtain ⟨hfree, hpiece⟩ := hpieces piece List.mem_cons_self
    have hjoin : [0].intercalate (piece :: next :: pieces) ++ w =
        piece ++ 0 :: ([0].intercalate (next :: pieces) ++ w) := by
      simp [List.intercalate, List.intersperse]
    rw [hjoin, leadingPieces_append_zero hfree hpiece,
      ih fun q hq => hpieces q (List.mem_cons_of_mem piece hq)]

theorem endsList_of_listEnd (h : ListEnd texts tail) (hne : texts ≠ []) :
    EndsList (Utf16.ofBytes tail) := by
  cases h with
  | nothing => exact .inl rfl
  | emptyNull more => exact absurd rfl hne
  | null _ _ => exact .inr (.inl rfl)
  | twoNulls _ more _ =>
    rw [ofBytes_zero_zero, ofBytes_zero_zero]
    exact .inr (.inr ⟨_, rfl⟩)

theorem splitStrings_eq_map (w : List UInt16) :
    splitStrings w = (leadingPieces w).map Utf16.decode := rfl

theorem splitStrings_stored (htexts : ∀ t ∈ texts, t ≠ "" ∧ Utf16.NullFree t)
    (htail : ListEnd texts tail) :
    splitStrings (Utf16.ofBytes (Utf16.toBytes (joined texts) ++ tail)) = texts := by
  rw [Utf16.ofBytes_toBytes_append, splitStrings_eq_map]
  cases texts with
  | nil =>
    cases htail with
    | nothing => rfl
    | emptyNull more =>
      have hempty : joined [] = [] := rfl
      rw [ofBytes_zero_zero, hempty, List.nil_append, leadingPieces_zero]
      rfl
    | null _ hne | twoNulls _ _ hne => exact absurd rfl hne
  | cons t texts =>
    have hpieces : ∀ q ∈ Utf16.encode t :: texts.map Utf16.encode, 0 ∉ q ∧ q ≠ [] := by
      intro q hq
      rw [← List.map_cons] at hq
      obtain ⟨x, hx, rfl⟩ := List.mem_map.mp hq
      obtain ⟨hne, hfree⟩ := htexts x hx
      exact ⟨Utf16.zero_notMem_encode hfree, Utf16.encode_ne_nil hne⟩
    have hends := endsList_of_listEnd htail (List.cons_ne_nil t texts)
    rw [joined, List.map_cons, leadingPieces_intercalate hpieces hends, ← List.map_cons,
      List.map_map]
    have hback : Utf16.decode ∘ Utf16.encode = id := funext Utf16.decode_encode
    rw [hback, List.map_id]

end Texts

/-- The bytes that a format puts for a value under its tag. -/
inductive Stored : UInt32 → List UInt8 → RegistryValue → Prop where
  | none (data : List UInt8) : Stored 0 data .none
  | string {s : String} {tail : List UInt8} : Utf16.NullFree s → TextEnd tail →
      Stored 1 (Utf16.toBytes (Utf16.encode s) ++ tail) (.string s)
  | expandString {s : String} {tail : List UInt8} : Utf16.NullFree s → TextEnd tail →
      Stored 2 (Utf16.toBytes (Utf16.encode s) ++ tail) (.expandString s)
  | binary (data : List UInt8) : Stored 3 data (.binary data)
  | dword (n : UInt32) (more : List UInt8) :
      Stored 4 (lowestFirst 4 n.toNat ++ more) (.dword n)
  | dwordBigEndian (n : UInt32) (more : List UInt8) :
      Stored 5 (highestFirst 4 n.toNat ++ more) (.dword n)
  | multiString {texts : List String} {tail : List UInt8} :
      (∀ t ∈ texts, t ≠ "" ∧ Utf16.NullFree t) → ListEnd texts tail →
      Stored 7 (Utf16.toBytes (joined texts) ++ tail) (.multiString texts)
  | qword (n : UInt64) (more : List UInt8) :
      Stored 11 (lowestFirst 8 n.toNat ++ more) (.qword n)

def knownTypes : List UInt32 := [0, 1, 2, 3, 4, 5, 7, 11]

def numberTypes : List (UInt32 × String × Nat) :=
  [(4, "REG_DWORD", 4), (5, "REG_DWORD_BIG_ENDIAN", 4), (11, "REG_QWORD", 8)]

section Decoding

variable {type : UInt32} {data : List UInt8} {v : RegistryValue} {f : Failure}

theorem decode_string (data : List UInt8) : decode 1 data = .ok (string (textOf data)) := rfl

theorem decode_expandString (data : List UInt8) :
    decode 2 data = .ok (expandString (textOf data)) := rfl

theorem decode_multiString (data : List UInt8) :
    decode 7 data = .ok (multiString (splitStrings (Utf16.ofBytes data))) := rfl

theorem decode_dword (data : List UInt8) : decode 4 data =
    (leading "REG_DWORD" 4 data).map fun d => dword (UInt32.ofNat (littleEndian d)) := rfl

theorem decode_dwordBigEndian (data : List UInt8) : decode 5 data =
    (leading "REG_DWORD_BIG_ENDIAN" 4 data).map fun d => dword (UInt32.ofNat (bigEndian d)) := rfl

theorem decode_qword (data : List UInt8) : decode 11 data =
    (leading "REG_QWORD" 8 data).map fun d => qword (UInt64.ofNat (littleEndian d)) := rfl

theorem decode_of_stored (h : Stored type data v) : decode type data = .ok v := by
  cases h with
  | none data => rfl
  | binary data => rfl
  | string hfree htail => rw [decode_string, textOf_stored hfree htail]
  | expandString hfree htail => rw [decode_expandString, textOf_stored hfree htail]
  | multiString htexts htail => rw [decode_multiString, splitStrings_stored htexts htail]
  | dword n more =>
    have hn : n.toNat < 256 ^ 4 := n.toNat_lt
    rw [decode_dword, leading_append (length_lowestFirst 4 n.toNat)]
    simp only [Except.map, littleEndian_lowestFirst hn, UInt32.ofNat_toNat]
  | dwordBigEndian n more =>
    have hn : n.toNat < 256 ^ 4 := n.toNat_lt
    rw [decode_dwordBigEndian, leading_append (length_highestFirst 4 n.toNat)]
    simp only [Except.map, bigEndian_highestFirst hn, UInt32.ofNat_toNat]
  | qword n more =>
    have hn : n.toNat < 256 ^ 8 := n.toNat_lt
    rw [decode_qword, leading_append (length_lowestFirst 8 n.toNat)]
    simp only [Except.map, littleEndian_lowestFirst hn, UInt64.ofNat_toNat]

theorem decode_of_unknown (h : type ∉ knownTypes) :
    decode type data = .error ⟨.unknownValueType type, Option.none⟩ := by
  simp only [knownTypes, List.mem_cons, List.not_mem_nil, or_false, not_or] at h
  obtain ⟨h0, h1, h2, h3, h4, h5, h7, h11⟩ := h
  simp only [decode, RegistryType.none, RegistryType.string, RegistryType.expandString,
    RegistryType.multiString, RegistryType.binary, RegistryType.dword,
    RegistryType.dwordBigEndian, RegistryType.qword, h0, h1, h2, h3, h4, h5, h7, h11, if_false]

theorem decode_of_number {name : String} {width : Nat} (h : (type, name, width) ∈ numberTypes)
    (data : List UInt8) :
    ∃ g : List UInt8 → RegistryValue, decode type data = (leading name width data).map g := by
  simp only [numberTypes, List.mem_cons, List.not_mem_nil, or_false, Prod.mk.injEq] at h
  rcases h with ⟨rfl, rfl, rfl⟩ | ⟨rfl, rfl, rfl⟩ | ⟨rfl, rfl, rfl⟩
  · exact ⟨_, decode_dword data⟩
  · exact ⟨_, decode_dwordBigEndian data⟩
  · exact ⟨_, decode_qword data⟩

theorem number_or_decode (h : type ∈ knownTypes) (data : List UInt8) :
    (∃ name width, (type, name, width) ∈ numberTypes) ∨ ∃ v, decode type data = .ok v := by
  simp only [knownTypes, List.mem_cons, List.not_mem_nil, or_false] at h
  rcases h with rfl | rfl | rfl | rfl | rfl | rfl | rfl | rfl
  · exact .inr ⟨_, rfl⟩
  · exact .inr ⟨_, decode_string data⟩
  · exact .inr ⟨_, decode_expandString data⟩
  · exact .inr ⟨_, rfl⟩
  · exact .inl ⟨"REG_DWORD", 4, by simp [numberTypes]⟩
  · exact .inl ⟨"REG_DWORD_BIG_ENDIAN", 4, by simp [numberTypes]⟩
  · exact .inr ⟨_, decode_multiString data⟩
  · exact .inl ⟨"REG_QWORD", 8, by simp [numberTypes]⟩

theorem map_leading_eq_error_iff {α : Type} {name : String} {width : Nat}
    {g : List UInt8 → α} : (leading name width data).map g = .error f ↔
      data.length < width ∧ f = ⟨.shortNumber name data.length width, Option.none⟩ := by
  rcases Nat.lt_or_ge data.length width with hshort | hlong
  · rw [leading_of_lt hshort]
    constructor
    · intro h
      exact ⟨hshort, (Except.error.inj h).symm⟩
    · rintro ⟨-, rfl⟩
      rfl
  · rw [leading_of_le hlong]
    constructor
    · intro h
      cases h
    · intro h
      omega

theorem decode_eq_error_iff : decode type data = .error f ↔
    (type ∉ knownTypes ∧ f = ⟨.unknownValueType type, Option.none⟩) ∨
      ∃ name width, (type, name, width) ∈ numberTypes ∧ data.length < width ∧
        f = ⟨.shortNumber name data.length width, Option.none⟩ := by
  constructor
  · intro h
    by_cases hknown : type ∈ knownTypes
    · rcases number_or_decode hknown data with ⟨name, width, hnumber⟩ | ⟨v, hv⟩
      · obtain ⟨g, hg⟩ := decode_of_number hnumber data
        rw [hg, map_leading_eq_error_iff] at h
        exact .inr ⟨name, width, hnumber, h⟩
      · rw [hv] at h
        cases h
    · rw [decode_of_unknown hknown] at h
      exact .inl ⟨hknown, (Except.error.inj h).symm⟩
  · rintro (⟨hunknown, rfl⟩ | ⟨name, width, hnumber, hshort, rfl⟩)
    · exact decode_of_unknown hunknown
    · obtain ⟨g, hg⟩ := decode_of_number hnumber data
      rw [hg, map_leading_eq_error_iff]
      exact ⟨hshort, rfl⟩

theorem code_of_decode_error (h : decode type data = .error f) : f.code = Option.none := by
  rcases decode_eq_error_iff.mp h with ⟨-, rfl⟩ | ⟨name, width, -, -, rfl⟩
  · rfl
  · rfl

theorem mem_knownTypes_of_number {name : String} {width : Nat}
    (h : (type, name, width) ∈ numberTypes) : type ∈ knownTypes := by
  have hall : ∀ entry ∈ numberTypes, entry.1 ∈ knownTypes := by decide
  exact hall _ h

/-- Decoding finds every value in the bytes that its format puts for it, whatever may follow them,
and fails for no other tags than unknown ones and no other bytes than too few for a number. -/
theorem decode_undoes_storage :
    (∀ type data v, Stored type data v → decode type data = .ok v) ∧
    (∀ type data, (∃ f, decode type data = .error f) ↔
      type ∉ knownTypes ∨
        ∃ name width, (type, name, width) ∈ numberTypes ∧ data.length < width) ∧
    ∀ type data f, decode type data = .error f →
      f.kind = if type ∈ knownTypes then .invalidArgument else .unsupported := by
  refine ⟨fun type data v => decode_of_stored, ?_, ?_⟩
  · intro type data
    constructor
    · rintro ⟨f, hf⟩
      rcases decode_eq_error_iff.mp hf with ⟨hunknown, -⟩ | ⟨name, width, hnumber, hshort, -⟩
      · exact .inl hunknown
      · exact .inr ⟨name, width, hnumber, hshort⟩
    · rintro (hunknown | ⟨name, width, hnumber, hshort⟩)
      · exact ⟨_, decode_eq_error_iff.mpr (.inl ⟨hunknown, rfl⟩)⟩
      · exact ⟨_, decode_eq_error_iff.mpr (.inr ⟨name, width, hnumber, hshort, rfl⟩)⟩
  · intro type data f hf
    rcases decode_eq_error_iff.mp hf with ⟨hunknown, rfl⟩ | ⟨name, width, hnumber, -, rfl⟩
    · rw [if_neg hunknown]
      rfl
    · rw [if_pos (mem_knownTypes_of_number hnumber)]
      rfl

theorem decode_undoes_storage_pair :
    Stored 7 (Utf16.toBytes (joined ["a", "😀"]) ++ [0, 0]) (.multiString ["a", "😀"]) ∧
      decode 7 [0x61, 0, 0, 0, 0x3D, 0xD8, 0x00, 0xDE, 0, 0] = .ok (.multiString ["a", "😀"]) ∧
      (4, "REG_DWORD", 4) ∈ numberTypes ∧ ∃ f, decode 4 [1, 2, 3] = .error f := by
  have hfree : ∀ t ∈ ["a", "😀"], t ≠ "" ∧ Utf16.NullFree t := by
    simp [Utf16.NullFree]
  have hstored := Stored.multiString hfree (.null _ (by simp))
  have hnumber : (4, "REG_DWORD", 4) ∈ numberTypes := by simp [numberTypes]
  obtain ⟨hdecode, hfails, -⟩ := decode_undoes_storage
  have hbytes : Utf16.toBytes (joined ["a", "😀"]) ++ [0, 0] =
      [0x61, 0, 0, 0, 0x3D, 0xD8, 0x00, 0xDE, 0, 0] := by decide
  refine ⟨hstored, hbytes ▸ hdecode _ _ _ hstored, hnumber, ?_⟩
  exact (hfails 4 [1, 2, 3]).mpr (.inr ⟨_, _, hnumber, by decide⟩)

end Decoding

end NativeResource.RegistryValue

import NativeResource.Failure
import NativeResource.Text.Utf16
/-!
Registry values. A stored value is a type tag and bytes. Texts are UTF-16 with or without their
terminator, lists of texts end at the first empty one, numbers have a fixed width in either byte
order, and binary data stands for itself.
-/
namespace NativeResource

namespace RegistryType

def none : UInt32 := 0
def string : UInt32 := 1
def expandString : UInt32 := 2
def binary : UInt32 := 3
def dword : UInt32 := 4
def dwordBigEndian : UInt32 := 5
def multiString : UInt32 := 7
def qword : UInt32 := 11

end RegistryType

inductive RegistryValue where
  | none
  | string (text : String)
  | expandString (text : String)
  | multiString (texts : List String)
  | binary (data : List UInt8)
  | dword (n : UInt32)
  | qword (n : UInt64)
  deriving DecidableEq, Repr

namespace RegistryValue

/-- The texts of a null-separated list, up to the first empty one. -/
def splitStrings (w : List UInt16) : List String :=
  ((Utf16.splitAtNulls w).takeWhile (!·.isEmpty)).map Utf16.decode

def textOf (data : List UInt8) : String := Utf16.decode (Utf16.beforeNull (Utf16.ofBytes data))

def littleEndian (data : List UInt8) : Nat := data.foldr (fun b n => b.toNat + 256 * n) 0

def bigEndian (data : List UInt8) : Nat := data.foldl (fun n b => 256 * n + b.toNat) 0

def leading (typeName : String) (width : Nat) (data : List UInt8) :
    Except Failure (List UInt8) :=
  if width ≤ data.length then .ok (data.take width)
  else .error ⟨.shortNumber typeName data.length width, Option.none⟩

def decode (type : UInt32) (data : List UInt8) : Except Failure RegistryValue :=
  if type = RegistryType.none then .ok none
  else if type = RegistryType.string then .ok (string (textOf data))
  else if type = RegistryType.expandString then .ok (expandString (textOf data))
  else if type = RegistryType.multiString then
    .ok (multiString (splitStrings (Utf16.ofBytes data)))
  else if type = RegistryType.binary then .ok (binary data)
  else if type = RegistryType.dword then
    (leading "REG_DWORD" 4 data).map fun d => dword (UInt32.ofNat (littleEndian d))
  else if type = RegistryType.dwordBigEndian then
    (leading "REG_DWORD_BIG_ENDIAN" 4 data).map fun d => dword (UInt32.ofNat (bigEndian d))
  else if type = RegistryType.qword then
    (leading "REG_QWORD" 8 data).map fun d => qword (UInt64.ofNat (littleEndian d))
  else .error ⟨.unknownValueType type, Option.none⟩

def text? : RegistryValue → Option String
  | string text | expandString text => some text
  | _ => Option.none

def debug : RegistryValue → String
  | none => "None"
  | string text => Text.applied "String" [Text.quote text]
  | expandString text => Text.applied "ExpandString" [Text.quote text]
  | multiString texts =>
    Text.applied "MultiString" ["[" ++ ", ".intercalate (texts.map Text.quote) ++ "]"]
  | binary data => Text.applied "Binary" [Text.quoteBytes data]
  | dword n => Text.applied "DWord" [toString n.toNat]
  | qword n => Text.applied "QWord" [toString n.toNat]

end RegistryValue

end NativeResource

import NativeResource.Text.Record
/-!
Raw handle values, and which of them mean "no handle".
-/
namespace NativeResource

/-- A handle as the system knows it: a signed machine word. -/
abbrev RawHandle := Int64

namespace RawHandle

def text (raw : RawHandle) : String := toString raw.toInt

def debug (raw : RawHandle) : String := "0x" ++ Text.hex raw.toUInt64.toNat

end RawHandle

/-- The values by which a family of handles says "no handle". -/
inductive Sentinel where
  | zero
  | minusOne
  | zeroOrMinusOne
  deriving DecidableEq, Repr

namespace Sentinel

def holds : Sentinel → RawHandle → Bool
  | zero, raw => raw == 0
  | minusOne, raw => raw == -1
  | zeroOrMinusOne, raw => raw == 0 || raw == -1

def name : Sentinel → String
  | zero => "Zero"
  | minusOne => "MinusOne"
  | zeroOrMinusOne => "ZeroOrMinusOne"

end Sentinel

end NativeResource

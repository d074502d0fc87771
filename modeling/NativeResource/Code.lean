import NativeResource.Text.Record
/-!
Result codes of native calls. The two vocabularies, Win32 error codes and NT status values, share
the 32-bit range and mean different things by the same number, so a code carries its vocabulary.
-/
namespace NativeResource

inductive Code where
  | win32 (raw : UInt32)
  | ntStatus (raw : UInt32)
  deriving DecidableEq, Repr

namespace Code

def raw : Code → UInt32
  | win32 raw => raw
  | ntStatus raw => raw

/-- Win32 success is zero; an NT status succeeds when its top bit is clear. -/
def isSuccess : Code → Bool
  | win32 raw => raw == 0
  | ntStatus raw => decide (raw.toNat < 0x80000000)

def text : Code → String
  | win32 raw => "Win32 error " ++ toString raw.toNat
  | ntStatus raw => "NTSTATUS 0x" ++ Text.hexPadded 8 raw.toNat

def debug : Code → String
  | win32 raw => Text.applied "Win32" [toString raw.toNat]
  | ntStatus raw => Text.applied "NtStatus" [toString raw.toNat]

end Code

end NativeResource

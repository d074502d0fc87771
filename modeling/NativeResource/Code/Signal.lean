import NativeResource.Code
import NativeResource.Code.Catalog
/-!
What a result code tells the loop that sizes a buffer. Codes are looked up in the order: too small
a buffer, more entries, end of an enumeration, success; anything else is a failure.
-/
namespace NativeResource

inductive Signal where
  | success
  | insufficientBuffer
  | moreEntries
  | noMoreEntries
  | failure
  deriving DecidableEq, Repr

def Signal.name : Signal → String
  | .success => "Success"
  | .insufficientBuffer => "InsufficientBuffer"
  | .moreEntries => "MoreEntries"
  | .noMoreEntries => "NoMoreEntries"
  | .failure => "Failure"

namespace Code

def insufficientBufferCodes : List Code :=
  [.win32 Win32.insufficientBuffer, .win32 Win32.moreData, .ntStatus NtStatus.bufferTooSmall,
    .ntStatus NtStatus.bufferOverflow, .ntStatus NtStatus.infoLengthMismatch]

def endOfEnumerationCodes : List Code :=
  [.win32 Win32.noMoreItems, .ntStatus NtStatus.noMoreEntries, .ntStatus NtStatus.noMoreFiles]

def isInsufficientBuffer (c : Code) : Bool := insufficientBufferCodes.contains c

def isMoreEntries (c : Code) : Bool := c == .ntStatus NtStatus.moreEntries

def isEndOfEnumeration (c : Code) : Bool := endOfEnumerationCodes.contains c

def signal (c : Code) : Signal :=
  if c.isInsufficientBuffer then .insufficientBuffer
  else if c.isMoreEntries then .moreEntries
  else if c.isEndOfEnumeration then .noMoreEntries
  else if c.isSuccess then .success
  else .failure

end Code

end NativeResource

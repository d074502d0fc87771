/-!
The result codes that have a meaning of their own here, in each of the two vocabularies.
-/
namespace NativeResource

namespace Win32

def success : UInt32 := 0
def fileNotFound : UInt32 := 2
def pathNotFound : UInt32 := 3
def accessDenied : UInt32 := 5
def invalidHandle : UInt32 := 6
def notEnoughMemory : UInt32 := 8
def outOfMemory : UInt32 := 14
def invalidDrive : UInt32 := 15
def sharingViolation : UInt32 := 32
def notSupported : UInt32 := 50
def badNetPath : UInt32 := 53
def fileExists : UInt32 := 80
def invalidParameter : UInt32 := 87
def callNotImplemented : UInt32 := 120
def insufficientBuffer : UInt32 := 122
def invalidName : UInt32 := 123
def alreadyExists : UInt32 := 183
def moreData : UInt32 := 234
def noMoreItems : UInt32 := 259

end Win32

namespace NtStatus

def moreEntries : UInt32 := 0x105
def bufferOverflow : UInt32 := 0x80000005
def noMoreFiles : UInt32 := 0x80000006
def noMoreEntries : UInt32 := 0x8000001A
def notImplemented : UInt32 := 0xC0000002
def infoLengthMismatch : UInt32 := 0xC0000004
def invalidHandle : UInt32 := 0xC0000008
def invalidParameter : UInt32 := 0xC000000D
def noSuchFile : UInt32 := 0xC000000F
def noMemory : UInt32 := 0xC0000017
def accessDenied : UInt32 := 0xC0000022
def bufferTooSmall : UInt32 := 0xC0000023
def objectNameInvalid : UInt32 := 0xC0000033
def objectNameNotFound : UInt32 := 0xC0000034
def objectNameCollision : UInt32 := 0xC0000035
def objectPathNotFound : UInt32 := 0xC000003A
def insufficientResources : UInt32 := 0xC000009A
def notSupported : UInt32 := 0xC00000BB

end NtStatus

end NativeResource

import NativeResource.Code.Signal
/-!
What a failure means to the caller, independent of the vocabulary that reported it, and the kind
of every result code.
-/
namespace NativeResource

inductive Kind where
  | insufficientBuffer
  | notFound
  | accessDenied
  | alreadyExists
  | invalidHandle
  | invalidArgument
  | outOfMemory
  | unsupported
  | other (raw : UInt32)
  deriving DecidableEq, Repr

namespace Kind

def text : Kind → String
  | insufficientBuffer => "buffer too small"
  | notFound => "object not found"
  | accessDenied => "access denied"
  | alreadyExists => "object already exists"
  | invalidHandle => "invalid handle"
  | invalidArgument => "invalid argument"
  | outOfMemory => "out of memory"
  | unsupported => "operation not supported"
  | other _ => "native call failed"

def name : Kind → String
  | insufficientBuffer => "InsufficientBuffer"
  | notFound => "NotFound"
  | accessDenied => "AccessDenied"
  | alreadyExists => "AlreadyExists"
  | invalidHandle => "InvalidHandle"
  | invalidArgument => "InvalidArgument"
  | outOfMemory => "OutOfMemory"
  | unsupported => "Unsupported"
  | other _ => "GenericOsFailure"

def debug : Kind → String
  | other raw => Text.applied "GenericOsFailure" [toString raw.toNat]
  | kind => kind.name

end Kind

def Win32.kinds : List (UInt32 × Kind) :=
  [(fileNotFound, .notFound), (pathNotFound, .notFound), (invalidDrive, .notFound),
    (badNetPath, .notFound), (accessDenied, .accessDenied), (sharingViolation, .accessDenied),
    (fileExists, .alreadyExists), (alreadyExists, .alreadyExists),
    (invalidHandle, .invalidHandle), (notEnoughMemory, .outOfMemory),
    (outOfMemory, .outOfMemory), (invalidParameter, .invalidArgument),
    (invalidName, .invalidArgument), (notSupported, .unsupported),
    (callNotImplemented, .unsupported)]

def NtStatus.kinds : List (UInt32 × Kind) :=
  [(objectNameNotFound, .notFound), (objectPathNotFound, .notFound), (noSuchFile, .notFound),
    (accessDenied, .accessDenied), (objectNameCollision, .alreadyExists),
    (invalidHandle, .invalidHandle), (noMemory, .outOfMemory),
    (insufficientResources, .outOfMemory), (invalidParameter, .invalidArgument),
    (objectNameInvalid, .invalidArgument), (notSupported, .unsupported),
    (notImplemented, .unsupported)]

def Code.kinds : Code → List (UInt32 × Kind)
  | .win32 _ => Win32.kinds
  | .ntStatus _ => NtStatus.kinds

/-- The sizing codes come first, then the vocabulary's own table; a code that stands in neither
keeps its number. -/
def Code.kind (c : Code) : Kind :=
  if c.isInsufficientBuffer then .insufficientBuffer
  else if c.isEndOfEnumeration then .notFound
  else (c.kinds.lookup c.raw).getD (.other c.raw)

end NativeResource

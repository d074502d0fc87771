import NativeResource.Failure.Kind
import NativeResource.Text.Quoted
/-!
Failures. A failure is its cause and, if known, the path or name it concerns. Kind, result code
and wording follow from the cause alone.
-/
namespace NativeResource

inductive AllocationFault where
  | tooLarge
  | refused
  deriving DecidableEq, Repr

def AllocationFault.text : AllocationFault → String
  | .tooLarge =>
    "memory allocation failed because the computed capacity exceeded the collection's maximum"
  | .refused => "memory allocation failed because the memory allocator returned an error"

inductive Cause where
  | reported (code : Code)
  /-- The allocator did not provide a buffer of so many bytes. -/
  | growth (bytes : Nat) (fault : AllocationFault)
  | charactersOverflow (chars : Nat)
  | charLengthOverflow (chars : Nat)
  | lengthPastCapacity (length capacity : Nat)
  /-- The call asked for more than the largest size a buffer may grow to. -/
  | ceiling (limit : Nat) (code : Code)
  /-- The call has more to report than one answer holds. -/
  | moreEntries (code : Code)
  | invalidHandle (family : String)
  | releasedHandle (family : String)
  /-- An open call reported success and handed out a value that means "no handle". -/
  | openedInvalid (family : String)
  | allocation (family : String) (bytes : Nat)
  | shortNumber (type : String) (held needed : Nat)
  | unknownValueType (type : UInt32)
  | pathTooLong
  | shortTokenUser
  deriving DecidableEq, Repr

namespace Cause

def kind : Cause → Kind
  | reported code => code.kind
  | growth _ _ | charactersOverflow _ | ceiling _ _ | allocation _ _ => .outOfMemory
  | charLengthOverflow _ | lengthPastCapacity _ _ | shortNumber _ _ _ | pathTooLong
  | shortTokenUser => .invalidArgument
  | moreEntries _ | unknownValueType _ => .unsupported
  | invalidHandle _ | releasedHandle _ | openedInvalid _ => .invalidHandle

def code : Cause → Option Code
  | reported code | ceiling _ code | moreEntries code => some code
  | _ => none

def fault : Cause → Option AllocationFault
  | growth _ fault => some fault
  | _ => none

/-- Whether the system keeps a message of its own for this cause: it does for each Win32 code
that a call reported. -/
def hasSystemMessage : Cause → Bool
  | reported (.win32 _) => true
  | _ => false

def message : Cause → String
  | reported code => code.text
  | growth bytes _ => "cannot grow buffer to " ++ toString bytes ++ " bytes"
  | charactersOverflow chars => toString chars ++ " chars overflows usize"
  | charLengthOverflow chars => "char length " ++ toString chars ++ " overflows usize"
  | lengthPastCapacity length capacity =>
    "logical length " ++ toString length ++ " exceeds capacity " ++ toString capacity
  | ceiling limit _ => "buffer would exceed the " ++ toString limit ++ " byte ceiling"
  | moreEntries _ => "call reported more entries; use enumerate_with_growth"
  | invalidHandle family => family ++ " handle is invalid"
  | releasedHandle family => family ++ " handle was already released"
  | openedInvalid family => "open succeeded but returned an invalid " ++ family ++ " handle"
  | allocation family bytes =>
    family ++ " allocation of " ++ toString bytes ++ " bytes failed"
  | shortNumber type held needed =>
    type ++ " value holds " ++ toString held ++ " of " ++ toString needed ++ " bytes"
  | unknownValueType type => "registry value type " ++ toString type.toNat
  | pathTooLong => "object path longer than 32767 characters"
  | shortTokenUser => "TokenUser result shorter than TOKEN_USER"

end Cause

structure Failure where
  cause : Cause
  context : Option String := none
  deriving DecidableEq, Repr

namespace Failure

def reported (code : Code) : Failure := ⟨.reported code, none⟩

/-- The failure of a code about the named object; an empty name says nothing. -/
def reportedFor (code : Code) (name : String) : Failure :=
  ⟨.reported code, if name.isEmpty then none else some name⟩

def withContext (f : Failure) (name : String) : Failure := ⟨f.cause, some name⟩

def withoutContext (f : Failure) : Failure := ⟨f.cause, none⟩

def kind (f : Failure) : Kind := f.cause.kind

def code (f : Failure) : Option Code := f.cause.code

def message (f : Failure) : String := f.cause.message

/-- The kind, then the code, then the object concerned, each as far as it is known. -/
def text (f : Failure) : String :=
  let code := f.code.elim "" fun c => " (" ++ c.text ++ ")"
  let context := f.context.elim "" fun name => " for '" ++ name ++ "'"
  f.kind.text ++ code ++ context

def debug (f : Failure) : String :=
  Text.record "Error"
    [("kind", f.kind.debug), ("code", Text.optional (f.code.map Code.debug)),
      ("message", Text.quote f.message), ("context", Text.optional (f.context.map Text.quote)),
      ("source", Text.optional (f.cause.fault.map AllocationFault.text))]

end Failure

end NativeResource

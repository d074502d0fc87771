import NativeResource.Failure
import NativeResource.Handle.Raw
/-!
The events that the library reports while it works, with their level, wording and fields.
-/
namespace NativeResource

inductive Event where
  | growing (capacity target required : Nat)
  | ceilingReached (capacity required ceiling : Nat)
  | callFailed (code : Code)
  | enumerationComplete (items : Nat)
  | enumerationExhausted (items : Nat)
  | oversizedDropped (capacity limit : Nat)
  | surplusDropped (capacity slots : Nat)
  | releasing (family : String) (raw : RawHandle)
  | dropFailed (family : String) (failure : Failure)
  | limitIgnored (variableName value : String)
  deriving DecidableEq, Repr

namespace Event

def level : Event → String
  | growing .. | enumerationComplete _ | enumerationExhausted _ | oversizedDropped ..
  | surplusDropped .. | releasing .. => "TRACE"
  | ceilingReached .. | callFailed _ => "DEBUG"
  | dropFailed .. | limitIgnored .. => "WARN"

def message : Event → String
  | growing .. => "growing buffer"
  | ceilingReached .. => "buffer growth ceiling reached"
  | callFailed _ => "native call failed"
  | enumerationComplete _ => "enumeration complete"
  | enumerationExhausted _ => "enumeration exhausted"
  | oversizedDropped .. => "dropping oversized buffer"
  | surplusDropped .. => "pool full; dropping buffer"
  | releasing .. => "releasing handle"
  | dropFailed .. => "release failed during drop"
  | limitIgnored .. => "ignoring unparsable pool limit"

def fields : Event → List (String × String)
  | growing capacity target required =>
    [("from", toString capacity), ("to", toString target), ("required", toString required)]
  | ceilingReached capacity required ceiling =>
    [("current", toString capacity), ("required", toString required),
      ("ceiling", toString ceiling)]
  | callFailed code => [("code", code.text)]
  | enumerationComplete items | enumerationExhausted items => [("items", toString items)]
  | oversizedDropped capacity limit =>
    [("capacity", toString capacity), ("limit", toString limit)]
  | surplusDropped capacity slots =>
    [("capacity", toString capacity), ("slots", toString slots)]
  | releasing family raw => [("family", family), ("raw", raw.text)]
  | dropFailed family failure => [("family", family), ("error", failure.text)]
  | limitIgnored variableName value => [("variable", variableName), ("value", value)]

/-- One line: level, message, then each field as name and value. -/
def line (e : Event) : String :=
  " ".intercalate (e.level :: e.message :: e.fields.map fun f => f.1 ++ "=" ++ f.2)

end Event

end NativeResource

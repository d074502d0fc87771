import NativeResource.Pool
import NativeResource.Text.Blank
/-!
Pool limits from the environment. A variable overrides its limit if its value, without the blanks
around it, is an optional plus sign and decimal digits that denote a machine word. A value that is
set and not of that form is reported and ignored; no value and an empty one are ignored silently.
-/
namespace NativeResource

inductive EnvironmentValue where
  | unset
  /-- Bytes that are not valid UTF-8. -/
  | unreadable
  | text (value : String)
  deriving DecidableEq, Repr

namespace PoolLimits

def slotsVariable : String := "WINHOLD_POOL_SLOTS"

def maxBytesVariable : String := "WINHOLD_POOL_MAX_BYTES"

def isDigit (c : Char) : Bool := decide ('0'.toNat ≤ c.toNat ∧ c.toNat ≤ '9'.toNat)

def digitValue (c : Char) : Nat := c.toNat - '0'.toNat

def numeral (digits : List Char) : Nat := digits.foldl (fun n c => 10 * n + digitValue c) 0

def digits? (s : List Char) : Option Nat :=
  if s ≠ [] ∧ s.all isDigit ∧ numeral s < sizeLimit then some (numeral s) else none

def unsigned? : List Char → Option Nat
  | '+' :: rest => digits? rest
  | s => digits? s

def parse? (value : String) : Option Nat := unsigned? (Text.trimBlanks value.toList)

def override (variableName : String) : EnvironmentValue → Option Nat × List Event
  | .unset | .unreadable => (none, [])
  | .text value =>
    if value.isEmpty then (none, [])
    else
      match parse? value with
      | some n => (some n, [])
      | none => (none, [.limitIgnored variableName value])

def ofEnvironment (slots maxBytes : EnvironmentValue) : PoolLimits × List Event :=
  let defaults : PoolLimits := {}
  let slotsSetting := override slotsVariable slots
  let maxBytesSetting := override maxBytesVariable maxBytes
  (⟨slotsSetting.1.getD defaults.maxSlots, maxBytesSetting.1.getD defaults.maxPooledSize⟩,
    slotsSetting.2 ++ maxBytesSetting.2)

end PoolLimits

end NativeResource

import NativeResource.Sizing.Session
/-!
Calls that answer from a script, for rehearsing the sizing loop without a system. A script is a
list of steps; each attempt takes the next step that applies, does to the buffer what the step
says, and gives the step's answer.
-/
namespace NativeResource

/-- An amount, fixed or in proportion to the capacity at the start of the attempt. -/
inductive Amount where
  | fixed (n : Nat)
  | scaled (factor offset : Nat)
  deriving DecidableEq, Repr

def Amount.at : Amount → Nat → Nat
  | fixed n, _ => n
  | scaled factor offset, base => saturate (saturate (base * factor) + offset)

structure ScriptStep where
  /-- The step stands while the capacity is below this, and is passed over once it is not. -/
  below : Option Nat := none
  /-- How many attempts a step without a bound serves. -/
  times : Nat := 1
  panics : Bool := false
  reserve : Option Amount := none
  write : Option ByteArray := none
  setLength : Option Amount := none
  code : Option Code := none
  size : Amount := .fixed 0
  /-- What a counted call returns if the step has no code. -/
  count : Amount := .fixed 0

abbrev Script := List ScriptStep

namespace Script

def next (capacity : Nat) : Script → Option ScriptStep × Script
  | [] => (none, [])
  | step :: rest =>
    match step.below with
    | some bound =>
      if capacity < bound then (some step, step :: rest) else next capacity rest
    | none =>
      if step.times ≤ 1 then (some step, rest)
      else (some step, { step with times := step.times - 1 } :: rest)

def enlarged (alloc : Allocator) (base : Nat) (step : ScriptStep) (b : Buffer) : Buffer :=
  step.reserve.elim b fun amount => (Buffer.Change.reserve alloc (amount.at base)).leaves b

def written (step : ScriptStep) (b : Buffer) : Buffer :=
  step.write.elim b fun data => b.overlay data

def resized (base : Nat) (step : ScriptStep) (b : Buffer) : Buffer :=
  step.setLength.elim b fun amount => (Buffer.Change.setLength (amount.at base)).leaves b

def played (alloc : Allocator) (step : ScriptStep) (b : Buffer) : Buffer :=
  resized b.capacity step (written step (enlarged alloc b.capacity step b))

/-- An attempt on a script: a step that unwinds does nothing else, and past the end of the script
the answer is the one given for that. -/
def attempt (alloc : Allocator) (atEnd : β) (reply : Buffer → ScriptStep → β) :
    Action (InUse Script) (Option β) := fun u =>
  let found := next u.buffer.capacity u.state
  match found.1 with
  | none => ⟨some atEnd, ⟨u.buffer, found.2⟩, []⟩
  | some step =>
    if step.panics then ⟨none, ⟨u.buffer, found.2⟩, []⟩
    else ⟨some (reply u.buffer step), ⟨played alloc step u.buffer, found.2⟩, []⟩

def endCode : Code := .win32 1359

def call (alloc : Allocator) : Call Script :=
  attempt alloc ⟨endCode, 0⟩ fun b step =>
    ⟨step.code.getD (.win32 Win32.success), step.size.at b.capacity⟩

def countedCall (alloc : Allocator) : CountedCall Script :=
  attempt alloc (.error endCode) fun b step =>
    match step.code with
    | some code => .error code
    | none => .ok (UInt32.ofNat (step.count.at b.charCapacity))

end Script

end NativeResource

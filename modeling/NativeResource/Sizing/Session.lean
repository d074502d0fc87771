import NativeResource.Pool
import NativeResource.Sizing.Settle
/-!
Native calls run to completion over a pool. Each run leases one buffer, sizes it for the call,
decodes what the call produced, and hands the buffer back however the run ends. A run is single
(one answer, decoded once), an enumeration (batches, decoded one by one), or counted (a call that
returns a number of UTF-16 units).
-/
namespace NativeResource

structure Session (σ : Type) where
  pool : Pool
  state : σ

/-- Reads what a call produced: the buffer, whose length is the produced size, and that size. -/
abbrev Decoder (σ α : Type) := Buffer → Nat → Action σ (Outcome α)

namespace Session

def giveBack (rest : Pool) (used : Effect (InUse σ) β) : Effect (Session σ) β :=
  let back := rest.release used.state.buffer
  ⟨used.value, ⟨back.1, used.state.state⟩, used.log ++ back.2⟩

def withLease (alloc : Allocator) (n : Nat) (refused : Failure → β)
    (use : Run (InUse σ) β) : Run (Session σ) β := fun s =>
  match s.pool.acquire alloc n with
  | (.error f, rest) => some ⟨refused f, ⟨rest, s.state⟩, []⟩
  | (.ok b, rest) => (use ⟨b, s.state⟩).map (giveBack rest)

theorem withLease_of_acquire {alloc : Allocator} {n : Nat} {refused : Failure → β}
    {use : Run (InUse σ) β} {s : Session σ} {b : Buffer} {rest : Pool}
    (h : s.pool.acquire alloc n = (.ok b, rest)) :
    withLease alloc n refused use s = (use ⟨b, s.state⟩).map (giveBack rest) := by
  simp only [withLease, h]

theorem withLease_of_refused {alloc : Allocator} {n : Nat} {refused : Failure → β}
    {use : Run (InUse σ) β} {s : Session σ} {f : Failure} {rest : Pool}
    (h : s.pool.acquire alloc n = (.error f, rest)) :
    withLease alloc n refused use s = some ⟨refused f, ⟨rest, s.state⟩, []⟩ := by
  simp only [withLease, h]

def decodeBuffer (decode : Decoder σ α) : Action (InUse σ) (Outcome α) := fun u =>
  let e := decode u.buffer u.buffer.length u.state
  ⟨e.value, ⟨u.buffer, e.state⟩, e.log⟩

def decodeSettled (decode : Decoder σ α) : Outcome Settled → Action (InUse σ) (Outcome α)
  | .returned .complete => decodeBuffer decode
  | .returned (.more code) => pure (.failed ⟨.moreEntries code, none⟩)
  | .returned (.exhausted code) => pure (.failed (.reported code))
  | .failed f => pure (.failed f)
  | .panicked => pure .panicked

def settleOnce (p : SizingPolicy) (alloc : Allocator) (call : Call σ) (decode : Decoder σ α) :
    Run (InUse σ) (Outcome α) := do
  let settled ← p.settle alloc call
  Run.ofAction (decodeSettled decode settled)

def single (p : SizingPolicy) (alloc : Allocator) (n : Nat) (call : Call σ)
    (decode : Decoder σ α) : Run (Session σ) (Outcome α) :=
  withLease alloc n .failed (settleOnce p alloc call decode)

/-- How far an enumeration is: at its end, or with the items read so far and more to come. -/
inductive Progress (α : Type) where
  | ended (outcome : Outcome (List α))
  | reading (items : List α)

def decodeBatch (decode : Decoder σ (List α)) (items : List α) :
    Outcome Settled → Action (InUse σ) (Progress α)
  | .returned .complete => do
    match ← decodeBuffer decode with
    | .returned last =>
      Action.report (.enumerationComplete (items ++ last).length)
      return .ended (.returned (items ++ last))
    | .failed f => return .ended (.failed f)
    | .panicked => return .ended .panicked
  | .returned (.more _) => do
    match ← decodeBuffer decode with
    | .returned batch => return .reading (items ++ batch)
    | .failed f => return .ended (.failed f)
    | .panicked => return .ended .panicked
  | .returned (.exhausted _) => do
    Action.report (.enumerationExhausted items.length)
    return .ended (.returned items)
  | .failed f => pure (.ended (.failed f))
  | .panicked => pure (.ended .panicked)

def settleBatch (p : SizingPolicy) (alloc : Allocator) (call : Call σ)
    (decode : Decoder σ (List α)) (items : List α) : Run (InUse σ) (Progress α) := do
  let settled ← p.settle alloc call
  Run.ofAction (decodeBatch decode items settled)

structure Reading (σ α : Type) where
  items : List α
  used : InUse σ

/-- Reads one batch; no value says that the call has more to report. -/
def readBatch (p : SizingPolicy) (alloc : Allocator) (call : Call σ)
    (decode : Decoder σ (List α)) : Run (Reading σ α) (Option (Outcome (List α))) := fun r => do
  let batch ← settleBatch p alloc call decode r.items r.used
  match batch.value with
  | .ended outcome => some ⟨some outcome, ⟨r.items, batch.state⟩, batch.log⟩
  | .reading items => some ⟨none, ⟨items, batch.state⟩, batch.log⟩

def settleBatches (p : SizingPolicy) (alloc : Allocator) (call : Call σ)
    (decode : Decoder σ (List α)) : Run (InUse σ) (Outcome (List α)) := fun u =>
  (Run.loop (readBatch p alloc call decode) ⟨[], u⟩).map fun e => ⟨e.value, e.state.used, e.log⟩

def enumerate (p : SizingPolicy) (alloc : Allocator) (n : Nat) (call : Call σ)
    (decode : Decoder σ (List α)) : Run (Session σ) (Outcome (List α)) :=
  withLease alloc n .failed (settleBatches p alloc call decode)

end Session

/-- A native call that returns a number of units: those written, or, when that is no less than the
capacity, those it needs. A failure comes as a code. -/
abbrev CountedCall (σ : Type) := Action (InUse σ) (Option (Except Code UInt32))

namespace CountedCall

def answer (charCapacity : Nat) : Except Code UInt32 → Answer
  | .ok count =>
    if charCapacity ≤ count.toNat then
      ⟨.win32 Win32.insufficientBuffer, saturate (count.toNat * Buffer.unitBytes)⟩
    else ⟨.win32 Win32.success, count.toNat * Buffer.unitBytes⟩
  | .error code => ⟨code, 0⟩

def toCall (call : CountedCall σ) : Call σ := fun u =>
  let e := call u
  ⟨e.value.map (answer u.buffer.charCapacity), e.state, e.log⟩

end CountedCall

def Session.counted (p : SizingPolicy) (alloc : Allocator) (chars : Nat)
    (call : CountedCall σ) : Run (Session σ) (Outcome String) :=
  Session.single p alloc (saturate (chars * Buffer.unitBytes)) call.toCall
    fun b _ => pure (.returned b.text)

end NativeResource

import NativeResource.Buffer.Wide
import NativeResource.Effect
import NativeResource.Sizing.Policy
/-!
Sizing a buffer for a native call: call, and while the answer is that the buffer is too small,
grow it and call again.
-/
namespace NativeResource

structure InUse (σ : Type) where
  buffer : Buffer
  state : σ

def InUse.clear (u : InUse σ) : InUse σ := ⟨u.buffer.clear, u.state⟩

/-- A native call that fills a buffer. Each run is one attempt; it answers, or it unwinds without
an answer. -/
abbrev Call (σ : Type) := Action (InUse σ) (Option Answer)

/-- One attempt: what the call found, its answer if it gave one, what it left and reported. -/
structure Attempt (σ : Type) where
  found : InUse σ
  answer : Option Answer
  left : InUse σ
  log : List Event

def Call.attempt (call : Call σ) (u : InUse σ) : Attempt σ :=
  let e := call u.clear
  ⟨u.clear, e.value, e.state, e.log⟩

inductive Settled where
  | complete
  | more (code : Code)
  | exhausted (code : Code)
  deriving DecidableEq, Repr

def Settled.produce (settled : Settled) (size : Nat) (u : InUse σ) :
    Effect (InUse σ) (Outcome Settled) :=
  match u.buffer.setLength size with
  | .ok b => ⟨.returned settled, ⟨b, u.state⟩, []⟩
  | .error f => ⟨.failed f, u, []⟩

namespace SizingPolicy

def enlarge (p : SizingPolicy) (alloc : Allocator) (a : Answer) (u : InUse σ) :
    Effect (InUse σ) (Option (Outcome Settled)) :=
  let growth := p.grow alloc a u.buffer
  match growth.result with
  | .ok b => ⟨none, ⟨b, u.state⟩, growth.log⟩
  | .error f => ⟨some (.failed f), u, growth.log⟩

def respond (p : SizingPolicy) (alloc : Allocator) (a : Answer) (u : InUse σ) :
    Effect (InUse σ) (Option (Outcome Settled)) :=
  match a.code.signal with
  | .insufficientBuffer => p.enlarge alloc a u
  | .success =>
    let e := Settled.complete.produce a.size u
    ⟨some e.value, e.state, e.log⟩
  | .moreEntries =>
    let e := (Settled.more a.code).produce a.size u
    ⟨some e.value, e.state, e.log⟩
  | .noMoreEntries => ⟨some (.returned (.exhausted a.code)), u, []⟩
  | .failure => ⟨some (.failed (.reported a.code)), u, [.callFailed a.code]⟩

/-- What follows from an attempt; no value says that the call is to be repeated. -/
def conclude (p : SizingPolicy) (alloc : Allocator) (x : Attempt σ) :
    Effect (InUse σ) (Option (Outcome Settled)) :=
  match x.answer with
  | none => ⟨some .panicked, x.left, x.log⟩
  | some a => (p.respond alloc a x.left).after x.log

/-- Repeats attempts until the answer is anything but "too small". When the call is complete or has
more, the buffer's length is the size it produced. -/
def settle (p : SizingPolicy) (alloc : Allocator) (call : Call σ) :
    Run (InUse σ) (Outcome Settled) :=
  Run.loop (Run.ofAction fun u => p.conclude alloc (call.attempt u))

end SizingPolicy

end NativeResource

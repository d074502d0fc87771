import NativeResource.Sizing.Session
/-!
Runs under observation. An observer keeps what it wants to know of every attempt and every
decoding of a run, in one list, the latest first. Observing a run changes nothing else about it.
-/
namespace NativeResource

/-- What is kept of an attempt (the buffer it found, its answer if it gave one, the buffer it left)
and of a decoding (the buffer and the produced size). -/
structure Observer (ν : Type) where
  attempt : Buffer → Option Answer → Buffer → ν
  decoding : Buffer → Nat → ν

def Call.observed (o : Observer ν) (call : Call σ) : Call (σ × List ν) := fun u =>
  let e := call ⟨u.buffer, u.state.1⟩
  let seen := o.attempt u.buffer e.value e.state.buffer
  ⟨e.value, ⟨e.state.buffer, (e.state.state, seen :: u.state.2)⟩, e.log⟩

def CountedCall.observed (o : Observer ν) (call : CountedCall σ) : CountedCall (σ × List ν) :=
  fun u =>
    let e := call ⟨u.buffer, u.state.1⟩
    let answered := e.value.map (CountedCall.answer u.buffer.charCapacity)
    let seen := o.attempt u.buffer answered e.state.buffer
    ⟨e.value, ⟨e.state.buffer, (e.state.state, seen :: u.state.2)⟩, e.log⟩

def Decoder.observed (o : Observer ν) (decode : Decoder σ α) : Decoder (σ × List ν) α :=
  fun b n s =>
    let e := decode b n s.1
    ⟨e.value, (e.state, o.decoding b n :: s.2), e.log⟩

end NativeResource

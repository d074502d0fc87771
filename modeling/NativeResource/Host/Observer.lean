import NativeResource.Host
/-!
A host under observation: every call is kept with its answer, the latest first. Observing a host
changes nothing about what it answers.
-/
namespace NativeResource

structure Exchange where
  request : Request
  reply : request.Reply

namespace Host

def observed (host : Host ω) : Host (ω × List Exchange) where
  perform := fun r w =>
    let answered := host.perform r w.1
    (answered.1, (answered.2, ⟨r, answered.1⟩ :: w.2))
  lastError := fun w => host.lastError w.1
  processHeap := host.processHeap
  memory := fun w => host.memory w.1

theorem observed_calls (host : Host ω) (r : Request) (w : ω × List Exchange) :
    (host.observed.perform r w).2.2 = ⟨r, (host.perform r w.1).1⟩ :: w.2 := rfl

end Host

end NativeResource

import NativeResource.Handle.Holdings
/-!
Several threads that release one handle at once. A thread first sets the released flag and sees
its old value, in one step; only the thread that found it clear goes on, in a second step, to close
the raw value. Between the two steps other threads may take theirs, in any order.
-/
namespace NativeResource

inductive Racer where
  | waiting
  | closing
  | finished (result : Except Failure Unit)

structure Race (σ : Type) where
  handle : Handle σ
  racers : List Racer
  state : σ

namespace Race

def start (h : Handle σ) (threads : Nat) (s : σ) : Race σ :=
  ⟨h, List.replicate threads .waiting, s⟩

def step (i : Nat) (r : Race σ) : Race σ × List Event :=
  match r.racers[i]? with
  | some .waiting =>
    if r.handle.isLive then
      ({ r with handle := r.handle.markReleased, racers := r.racers.set i .closing }, [])
    else
      ({ r with
          handle := r.handle.markReleased
          racers := r.racers.set i (.finished (.ok ())) }, [])
  | some .closing =>
    let e := r.handle.family.close r.handle.raw r.state
    ({ r with racers := r.racers.set i (.finished e.value), state := e.state },
      .releasing r.handle.family.name r.handle.raw :: e.log)
  | some (.finished _) | none => (r, [])

def run (schedule : List Nat) (r : Race σ) : Race σ × List Event :=
  match schedule with
  | [] => (r, [])
  | i :: rest =>
    let stepped := r.step i
    let finished := stepped.1.run rest
    (finished.1, stepped.2 ++ finished.2)

def inRounds (threads : Nat) : List Nat := List.range threads ++ List.range threads

def isFailed : Racer → Bool
  | .finished (.error _) => true
  | _ => false

def failures (r : Race σ) : Nat := r.racers.countP isFailed

end Race

/-- Lets threads release the handle under a name in the given order of steps, and counts those
that were told of a failure. -/
def Holdings.race (name : String) (threads : Nat) (schedule : List Nat) :
    Action (Holdings σ) (Option Nat) := fun s =>
  match s.handles.find? name with
  | none => ⟨none, s, []⟩
  | some h =>
    let ended := (Race.start h threads s.state).run schedule
    ⟨some ended.1.failures, ⟨Table.insert name ended.1.handle s.handles, ended.1.state⟩, ended.2⟩

end NativeResource

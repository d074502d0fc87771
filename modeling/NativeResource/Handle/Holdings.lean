import NativeResource.Handle
import NativeResource.Table
/-!
Handles under names, and the life of each: made, borrowed, released, given up or dropped. A handle
put under a name in use replaces the old one, which is dropped afterwards.
-/
namespace NativeResource

structure Holdings (σ : Type) where
  handles : Table (Handle σ) := []
  state : σ

namespace Holdings

def within (x : Action σ α) : Action (Holdings σ) α := fun s =>
  let e := x s.state
  ⟨e.value, { s with state := e.state }, e.log⟩

def handle? (name : String) : Action (Holdings σ) (Option (Handle σ)) :=
  Action.quiet fun s => (s.handles.find? name, s)

def put (name : String) (h : Handle σ) : Action (Holdings σ) Unit :=
  Action.quiet fun s => ((), { s with handles := Table.insert name h s.handles })

def forget (name : String) : Action (Holdings σ) Unit :=
  Action.quiet fun s => ((), { s with handles := s.handles.erase name })

def hold (name : String) (h : Handle σ) : Action (Holdings σ) Unit := do
  let old ← handle? name
  put name h
  match old with
  | some o => within o.drop
  | none => pure ()

def release (name : String) : Action (Holdings σ) (Except Failure Unit) := do
  match ← handle? name with
  | some h =>
    let (result, released) ← within h.release
    put name released
    pure result
  | none => pure (.ok ())

def drop (name : String) : Action (Holdings σ) Unit := do
  match ← handle? name with
  | some h =>
    forget name
    within h.drop
  | none => pure ()

/-- Takes a handle out and gives up its raw value; the handle is gone either way. -/
def relinquish (name : String) : Action (Holdings σ) (Option (Except Failure RawHandle)) := do
  match ← handle? name with
  | some h =>
    forget name
    return some (← within h.relinquish)
  | none => pure none

def dropEach : List (String × Handle σ) → Action σ Unit
  | [] => pure ()
  | entry :: rest => do
    entry.2.drop
    dropEach rest

def dropAll : Action (Holdings σ) Unit := fun s =>
  let e := dropEach s.handles s.state
  ⟨(), ⟨[], e.state⟩, e.log⟩

end Holdings

end NativeResource

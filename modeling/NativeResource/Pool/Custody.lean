import NativeResource.Effect
import NativeResource.Pool
import NativeResource.Table
/-!
A pool together with the buffers that are out of it. A holder either owns its buffer or has it on
lease; a leased buffer goes back to the pool when it is dropped, also by unwinding, and an owned
one is freed.
-/
namespace NativeResource

structure Holding where
  buffer : Buffer
  leased : Bool

def Holding.debug (h : Holding) : String :=
  if h.leased then Text.applied "PooledBuffer" [h.buffer.debug] else h.buffer.debug

structure Custody where
  pool : Pool
  held : Table Holding := []

namespace Custody

def giveBack (b : Buffer) : Action Custody Unit := fun c =>
  let r := c.pool.release b
  ⟨(), { c with pool := r.1 }, r.2⟩

def letGo (h : Holding) : Action Custody Unit :=
  if h.leased then giveBack h.buffer else pure ()

def holding? (name : String) : Action Custody (Option Holding) :=
  Action.quiet fun c => (c.held.find? name, c)

def forget (name : String) : Action Custody Unit :=
  Action.quiet fun c => ((), { c with held := c.held.erase name })

/-- Puts a holding under a name; what stood there is let go afterwards. -/
def hold (name : String) (h : Holding) : Action Custody Unit := do
  let old ← holding? name
  Action.quiet fun c => ((), { c with held := c.held.insert name h })
  match old with
  | some o => letGo o
  | none => pure ()

def takeOut (alloc : Allocator) (n : Nat) : Action Custody (Except Failure Buffer) :=
  Action.quiet fun c =>
    let r := c.pool.acquire alloc n
    (r.1, { c with pool := r.2 })

def holdResult (name : String) (leased : Bool) (r : Except Failure Buffer) :
    Action Custody (Except Failure Buffer) := do
  match r with
  | .ok b =>
    hold name ⟨b, leased⟩
    pure (.ok b)
  | .error f => pure (.error f)

def allocate (alloc : Allocator) (name : String) (n : Nat) :
    Action Custody (Except Failure Buffer) :=
  holdResult name false (Buffer.new alloc n)

def acquire (alloc : Allocator) (name : String) (n : Nat) :
    Action Custody (Except Failure Buffer) := do
  holdResult name false (← takeOut alloc n)

def lease (alloc : Allocator) (name : String) (n : Nat) :
    Action Custody (Except Failure Buffer) := do
  holdResult name true (← takeOut alloc n)

def unwind (alloc : Allocator) (n : Nat) (use : Buffer → Buffer) :
    Action Custody (Except Failure Unit) := do
  match ← takeOut alloc n with
  | .ok b =>
    giveBack (use b)
    pure (.ok ())
  | .error f => pure (.error f)

def release (name : String) : Action Custody Unit := do
  match ← holding? name with
  | some h =>
    forget name
    giveBack h.buffer
  | none => pure ()

def drop (name : String) : Action Custody Unit := do
  match ← holding? name with
  | some h =>
    forget name
    letGo h
  | none => pure ()

/-- Turns a lease into an owned buffer, which keeps its length and contents. The lease itself ends
with an empty buffer in its place. -/
def keep (name : String) : Action Custody Unit := do
  match ← holding? name with
  | some h =>
    Action.quiet fun c => ((), { c with held := c.held.insert name ⟨h.buffer, false⟩ })
    letGo ⟨.empty, h.leased⟩
  | none => pure ()

def update (name : String) (b : Buffer) : Action Custody Unit := do
  match ← holding? name with
  | some h =>
    Action.quiet fun c => ((), { c with held := c.held.insert name ⟨b, h.leased⟩ })
  | none => pure ()

end Custody

def Pool.drainUpTo (alloc : Allocator) : Nat → Pool → List Buffer × Pool
  | 0, p => ([], p)
  | n + 1, p =>
    if p.size = 0 then ([], p)
    else
      match p.acquire alloc 0 with
      | (.ok b, rest) =>
        let drained := drainUpTo alloc n rest
        (b :: drained.1, drained.2)
      | (.error _, rest) => drainUpTo alloc n rest

def Pool.drain (alloc : Allocator) (p : Pool) : List Buffer × Pool := p.drainUpTo alloc p.size

end NativeResource

import NativeResource.Buffer
import NativeResource.Event
/-!
A bounded pool of retired buffers. A request gets the smallest retained buffer that is large
enough, the first of equals; failing that the largest one, the last of equals, grown; and a new
buffer only when none is retained. A buffer handed back is retained, its length reset, if it has
an allocation within the size limit and a slot is free.
-/
namespace NativeResource

structure PoolLimits where
  maxSlots : Nat := 16
  maxPooledSize : Nat := 65536
  deriving DecidableEq, Repr

structure Pool where
  limits : PoolLimits
  slots : List Buffer := []

namespace Pool

def size (p : Pool) : Nat := p.slots.length

def firstIndex (xs : List Nat) (x : Nat) : Nat := xs.idxOf x

def lastIndex (xs : List Nat) (x : Nat) : Nat := xs.length - 1 - xs.reverse.idxOf x

def choose? (capacities : List Nat) (n : Nat) : Option Nat :=
  match (capacities.filter (n ≤ ·)).min? with
  | some least => some (firstIndex capacities least)
  | none => capacities.max?.map (lastIndex capacities)

def select? (slots : List Buffer) (n : Nat) : Option Nat :=
  choose? (slots.map Buffer.capacity) n

/-- Takes an element out and moves the last one into its place. -/
def swapRemove (xs : List α) (i : Nat) : List α :=
  match xs.getLast? with
  | none => []
  | some last => (xs.set i last).dropLast

def take? (p : Pool) (n : Nat) : Option (Buffer × Pool) := do
  let i ← select? p.slots n
  let b ← p.slots[i]?
  return (b, { p with slots := swapRemove p.slots i })

/-- A buffer of at least `n` bytes and length zero. A retained buffer that was chosen has left
the pool even if it could not be grown. -/
def acquire (alloc : Allocator) (n : Nat) (p : Pool) : Except Failure Buffer × Pool :=
  match p.take? n with
  | some (b, rest) => (b.clear.reserve alloc n, rest)
  | none => (Buffer.new alloc n, p)

def release (b : Buffer) (p : Pool) : Pool × List Event :=
  if b.capacity = 0 then (p, [])
  else if p.limits.maxPooledSize < b.capacity then
    (p, [.oversizedDropped b.capacity p.limits.maxPooledSize])
  else if p.size < p.limits.maxSlots then ({ p with slots := p.slots ++ [b.clear] }, [])
  else (p, [.surplusDropped b.capacity p.limits.maxSlots])

def debug (p : Pool) : String :=
  Text.record "BufferPool"
    [("len", toString p.size), ("max_slots", toString p.limits.maxSlots),
      ("max_pooled_size", toString p.limits.maxPooledSize)]

end Pool

end NativeResource

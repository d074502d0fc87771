import NativeResource.Buffer
import NativeResource.Event
/-!
How a buffer grows when a call finds it too small. A growth asks for the reported size, twice the
capacity or the capacity and an increment, whichever is most, and is cut to the ceiling when that
is past it. Growth is refused at the ceiling and for a report past it.
-/
namespace NativeResource

/-- The largest value of a machine word, at which sums and products of sizes stop. -/
def saturate (n : Nat) : Nat := min n (sizeLimit - 1)

structure SizingPolicy where
  ceiling : Nat := 67108864
  increment : Nat := 256
  increment_pos : 0 < increment := by decide
  deriving DecidableEq, Repr

structure Answer where
  code : Code
  size : Nat
  deriving DecidableEq, Repr

structure Growth where
  result : Except Failure Buffer
  log : List Event

namespace SizingPolicy

/-- A policy with the given settings; an increment of zero counts as one. -/
def ofSettings (ceiling increment : Option Nat) : SizingPolicy :=
  let defaults : SizingPolicy := {}
  ⟨ceiling.getD defaults.ceiling, max 1 (increment.getD defaults.increment), by omega⟩

def wanted (p : SizingPolicy) (capacity required : Nat) : Nat :=
  max (max required (saturate (capacity * 2))) (saturate (capacity + p.increment))

def target? (p : SizingPolicy) (capacity required : Nat) : Option Nat :=
  if p.wanted capacity required ≤ p.ceiling then some (p.wanted capacity required)
  else if capacity < p.ceiling ∧ required ≤ p.ceiling then some p.ceiling
  else none

def grow (p : SizingPolicy) (alloc : Allocator) (a : Answer) (b : Buffer) : Growth :=
  match p.target? b.capacity a.size with
  | some target =>
    ⟨b.reserve alloc target, [.growing b.capacity target a.size]⟩
  | none =>
    ⟨.error ⟨.ceiling p.ceiling a.code, none⟩, [.ceilingReached b.capacity a.size p.ceiling]⟩

def debug (p : SizingPolicy) (poolText : String) : String :=
  Text.record "Invoker"
    [("pool", poolText), ("max_capacity", toString p.ceiling),
      ("min_increment", toString p.increment)]

end SizingPolicy

end NativeResource

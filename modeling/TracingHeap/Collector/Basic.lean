import TracingHeap.Allocator.Basic
import TracingHeap.Work.Buffer

/-!
Collectors: the threads that carry out collections. Each has allocators for copies, and a buffer of the
objects that it has to scan.
-/

namespace TracingHeap

/-- The allocators for copies, with the spaces they copy into. -/
structure CopyContext where
  allocators : AllocatorSet
  destinations : List (AllocatorSelector × SpaceId)
  deriving DecidableEq, Inhabited

namespace CopyContext

/-- The allocator that a kind of copy goes to. -/
def selector : Plan → CopySemantics → AllocatorSelector
  | .generational, .ordinary | .generational, .mature => .cells 0
  | .semispace, .ordinary | .semispace, .mature => .bump 0
  | _, .large => .large 0

/-- The destinations of copies; `current` is the space for ordinary objects. -/
def bindings (current : SpaceId) : Plan → List (AllocatorSelector × SpaceId)
  | .generational => [(.cells 0, .second), (.large 0, .large)]
  | .semispace => [(.bump 0, current), (.large 0, .large)]

/-- Allocators for copies into the given destinations. -/
def create (spaces : Spaces) (destinations : List (AllocatorSelector × SpaceId)) :
    Except Fault CopyContext := do
  return ⟨← AllocatorSet.bind spaces (fun _ => .nothingToCopyWith) destinations, destinations⟩

/-- Moves a bump allocator to another space. -/
def rebind (c : CopyContext) (index : Nat) (space : SpaceId) : Except Fault CopyContext :=
  if c.allocators.bumps.size ≤ index then
    .error (.indexOutOfBounds c.allocators.bumps.size index)
  else
    .ok {
      allocators := c.allocators.rebindBump index space
      destinations := c.destinations.map fun (selector, mapped) =>
        if selector = .bump (UInt8.ofNat index) then (selector, space) else (selector, mapped) }

end CopyContext

/-- A thread that takes part in collections. -/
structure Collector where
  /-- Its number; the first one also does what is done once. -/
  ordinal : Nat
  state : TraceState
  /-- Objects still to be scanned. -/
  buffer : Work.Buffer Address
  copies : CopyContext
  deriving Inhabited

namespace Collector

/-- A collector that has taken part in no collection. -/
def new (ordinal : Nat) (copies : CopyContext) : Collector := ⟨ordinal, .unused, #[], copies⟩

/-- Is this the collector that also does what is done once? -/
def isPrimary (c : Collector) : Bool := c.ordinal == 0

end Collector

end TracingHeap

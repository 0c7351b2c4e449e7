import TracingHeap.Allocator.Basic

/-!
Mutators: the threads of the program that uses the heap. Each has allocators of its own, and a buffer
for the write barrier of a generational heap, which remembers every old object at its first store after
a collection.
-/

namespace TracingHeap

/-- A thread of the program. -/
structure Mutator where
  /-- The handle by which the program knows the thread. -/
  thread : Address
  allocators : AllocatorSet
  /-- Objects remembered but not handed to the collectors yet, the last one at the end. -/
  remembered : Array Address
  deriving DecidableEq, Inhabited

namespace Mutator

/-- The most objects that a mutator remembers by itself. -/
def capacity : Nat := 512

/-- The allocator that a kind of request goes to. -/
def selector : Plan → AllocSemantics → AllocatorSelector
  | _, .ordinary => .bump 0
  | _, .immortal => .bump 1
  | _, .large => .large 0
  | .generational, .mature => .cells 0
  | .semispace, .mature => .bump 0

/-- The space of every allocator; `current` is the space for ordinary objects. -/
def bindings (current : SpaceId) : Plan → List (AllocatorSelector × SpaceId)
  | .generational =>
    [(.bump 0, current), (.bump 1, .immortal), (.cells 0, .second), (.large 0, .large)]
  | .semispace => [(.bump 0, current), (.bump 1, .immortal), (.large 0, .large)]

end Mutator

end TracingHeap

import TracingHeap.Collection.Run

/-!
Allocation by a mutator. A request that a space refuses because a collection is due is tried again after
a collection, as often as the settings allow; then memory counts as exhausted and the program is told.
-/

namespace TracingHeap.Heap

variable {α : Type}

/-- Runs a step of the allocators of a mutator. -/
def withAllocators (index : Nat) (step : Step (AllocatorSet × Heap) α) : Step Heap α := fun h =>
  let m := (mutatorPart index).get h
  match step (m.allocators, (mutatorPart index).set h default) with
  | .ok a (s, h) => .ok a ((mutatorPart index).set h { m with allocators := s })
  | .error e (s, h) => .error e ((mutatorPart index).set h { m with allocators := s })

/-- The allocator that serves a request of a mutator. -/
def route (h : Heap) (r : Request) (semantics : AllocSemantics) :
    Except Fault AllocatorSelector := do
  return Mutator.selector h.plan (if ← r.isLarge then .large else semantics)

/-- The program is told that collections make no room. -/
def giveUp : Step Heap (Option Address) := do
  modify fun h => { h with demand := h.demand.dropped }
  report .heap
  return none

/-- Tries to serve a request, with at most `left` more collections. A collection after the first one is
an emergency. -/
def allocWith (index : Nat) (selector : AllocatorSelector) (r : Request) (left : Nat) (again : Bool) :
    Step Heap (Option Address) := do
  match ← withAllocators index (AllocatorSet.alloc selector r) with
  | some start => return some start
  | none =>
    if !(← get).demand.wanted then return none
    match left with
    | 0 => giveUp
    | left + 1 =>
      if again then setEmergency true
      collect
      allocWith index selector r left true

/-- Serves a request of a mutator. No memory is the answer after a shortage was reported, if the program
goes on. -/
def alloc (index : Nat) (r : Request) (semantics : AllocSemantics) : Step Heap (Option Address) := do
  let selector ← Step.ask (·.route r semantics)
  allocWith index selector r (← get).settings.maxCollectionAttempts.toNat false

/-- The space that a mutator has allocated an object in takes it over. -/
def adoptAllocated (index : Nat) (object : Address) : Step Heap Unit := do
  let h ← get
  let spaces := ((mutatorPart index).get h).allocators.spaces
  match spaces.find? fun id => (h.spaces.space id).extent.holds object with
  | some id => adoptNew id object
  | none => throw (.notAllocatedHere object)

end TracingHeap.Heap

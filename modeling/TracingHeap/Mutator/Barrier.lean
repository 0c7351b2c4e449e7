import TracingHeap.Mutator.Alloc

/-!
The write barrier: a mutator stores references through it. In a generational heap an object that is not
young is remembered at the first store after a collection, which the unlogged bit tells.
-/

namespace TracingHeap.Heap

/-- Remembers an object that was stored into, unless it is remembered already or need not be. A full
buffer is handed over. -/
def remember (index : Nat) (object : Address) : Step Heap Unit := do
  let mark := (← get).memory.mark object
  if mark.isUnlogged then
    modify fun h => { h with memory := h.memory.setMark object mark.logged }
    onMutator index (modify fun m => { m with remembered := m.remembered.push object })
    if Mutator.capacity ≤ ((mutatorPart index).get (← get)).remembered.size then flush index

/-- Stores a reference to `target` at a place in `object`. -/
def store (index : Nat) (object place target : Address) : Step Heap Unit := do
  modify fun h => { h with memory := h.memory.store place target.word }
  match (← get).plan with
  | .generational => remember index object
  | .semispace => pure ()

/-- Ends a mutator: what it remembers is handed over. -/
def destroyMutator (index : Nat) : Step Heap Unit := do
  flush index
  modify fun h => { h with program.mutators := h.program.mutators.eraseIdxIfInBounds index }

end TracingHeap.Heap

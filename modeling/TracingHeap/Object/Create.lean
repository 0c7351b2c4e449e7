import TracingHeap.Mutator.Barrier

/-!
Objects of the program: allocation with a header and empty slots, and access to slots and payload.
-/

namespace TracingHeap.Heap

/-- A slot of an object, if the object has so many. -/
def slotIn (h : Heap) (object : Address) (index : Word) : Except Fault Address :=
  if index.toNat < (h.memory.header object).slots.toNat then .ok (Object.slotAt object index)
  else .error .slotIndexTooLarge

/-- The reference in a slot of an object. -/
def readSlot (h : Heap) (object : Address) (index : Word) : Except Fault Address := do
  return ⟨h.memory.loadAny (← h.slotIn object index)⟩

/-- Stores a reference into a slot of an object. -/
def writeSlot (mutator : Nat) (object : Address) (index : Word) (target : Address) :
    Step Heap Unit := do
  let place ← Step.ask (·.slotIn object index)
  store mutator object place target

/-- The place of the payload of an object. -/
def payloadOf (h : Heap) (object : Address) : Address :=
  Object.slotAt object (h.memory.header object).slots.toUInt64

/-- Puts null into the first `count` slots of an object. -/
def clearSlots (m : Memory) (object : Address) : Nat → Memory
  | 0 => m
  | count + 1 => clearSlots (m.store (Object.slotAt object (UInt64.ofNat count)) 0) object count

/-- A new object of `bytes` bytes with a number of slots, all of them null. -/
def newObject (mutator : Nat) (bytes slots : Word) (semantics : AllocSemantics) :
    Step Heap (Option Address) := do
  let least ← Object.bytesFor slots
  Step.ensure (least ≤ bytes) (.objectTooSmall bytes slots)
  match ← alloc mutator ⟨bytes, Padding.minAlignment, 0⟩ semantics with
  | none => return none
  | some object =>
    modify fun h =>
      { h with memory := clearSlots (h.memory.setHeader object bytes slots) object slots.toNat }
    adoptAllocated mutator object
    return some object

/-- A new object with a number of slots and one word of payload, which holds `id`. -/
def newObjectWithId (mutator : Nat) (slots id : Word) (semantics : AllocSemantics) :
    Step Heap Address := do
  let bytes ← Object.bytesFor (slots + 1)
  match ← newObject mutator bytes slots semantics with
  | none => throw (.allocationFailed id)
  | some object =>
    let place := (← get).payloadOf object
    modify fun h => { h with memory := h.memory.store place id }
    return object

end TracingHeap.Heap

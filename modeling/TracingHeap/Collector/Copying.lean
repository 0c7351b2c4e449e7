import TracingHeap.Allocator.Alloc
import TracingHeap.Collector.Basic

/-!
Copying: how a collector gets memory for a copy, and how a space takes over a new object or a copy. The
budget holds pages back so that there is room for every copy.
-/

namespace TracingHeap

namespace Heap

/-- A space takes over a copy. -/
def adoptCopy (id : SpaceId) (object : Address) : Step Heap Unit := do
  let copied : Step (CopySpace × Memory) Unit :=
    modify fun (s, m) => (s, m.setMark object s.freshMark)
  match (← get).spaces.space id with
  | .copying _ => onCopying id copied
  | .markSweep _ => onMature (MarkSweepSpace.adoptCopy object)
  | .immortal s => Step.fail (.copiedIntoImmortal s.region.name)
  | .large _ => onLarge (LargeSpace.adopt object false)

/-- A space takes over an object that a mutator allocated. -/
def adoptNew (id : SpaceId) (object : Address) : Step Heap Unit := do
  match (← get).spaces.space id with
  | .copying _ => onCopying id (modify fun (s, m) => (s, m.setMark object s.freshMark))
  | .markSweep _ => onMature (modify fun (s, m) => (s, m.setMark object s.freshMark))
  | .immortal _ => onImmortal (ImmortalSpace.adopt object)
  | .large _ => onLarge (LargeSpace.adopt object true)

end Heap

namespace CopyContext

/-- The allocators as a part of the context. -/
@[inline] def allocatorsPart : Focus CopyContext AllocatorSet :=
  ⟨(·.allocators), fun c a => { c with allocators := a }⟩

/-- Memory for a copy of an object. -/
def alloc (object : Address) (r : Request) (semantics : CopySemantics) :
    Step (CopyContext × Heap) Address := do
  let semantics := if ← r.isLarge then .large else semantics
  let selector := selector (← get).2.plan semantics
  match ← Step.onBoth (Focus.fst.comp allocatorsPart) Focus.snd (AllocatorSet.alloc selector r) with
  | some place => return place
  | none =>
    let (c, h) ← get
    let id ← c.allocators.spaceOf selector
    throw (.noRoomToCopy (h.spaces.nameOf id) object r.bytes semantics)

/-- The destination that a copy lies in takes it over. -/
def adopt (copy : Address) : Step (CopyContext × Heap) Unit := do
  let (c, h) ← get
  match c.destinations.find? fun (_, id) => (h.spaces.space id).extent.holds copy with
  | some (_, id) => Step.on Focus.snd (Heap.adoptCopy id copy)
  | none => throw (.outsideCopyDestinations copy)

/-- Copies an object. -/
def copy (object : Address) (semantics : CopySemantics) : Step (CopyContext × Heap) Address := do
  let bytes := ((← get).2.memory.header object).size
  let place ← alloc object ⟨bytes.toUInt64, Padding.minAlignment, 0⟩ semantics
  Step.on (Focus.snd.comp Heap.memoryPart) (modify fun m => m.copy object place bytes.toNat)
  adopt place
  return place

/-- Drops the free cells; a sweep is about to find them again. -/
def resetCells (c : CopyContext) : CopyContext := { c with allocators := c.allocators.resetCells }

/-- Drops all memory. -/
def reset (c : CopyContext) : CopyContext := { c with allocators := c.allocators.reset }

end CopyContext

end TracingHeap

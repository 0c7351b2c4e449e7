import TracingHeap.Heap.Basic
import TracingHeap.Object.Access

/-!
References: reading and replacing the reference in a root or in a slot of an object.
-/

namespace TracingHeap

namespace Memory

/-- The places of the reference slots of an object, in order. -/
def slotsOf (m : Memory) (object : Address) : List Slot :=
  (List.range (m.header object).slots.toNat).map fun i =>
    .field (Object.slotAt object (UInt64.ofNat i))

end Memory

namespace Heap

/-- The reference in a slot. -/
def refOf (h : Heap) : Slot → Address
  | .root index => h.program.roots[index]?.getD .null
  | .field place => ⟨h.memory.loadAny place⟩

/-- Replaces the reference in a slot. -/
def setRef (h : Heap) (slot : Slot) (object : Address) : Heap :=
  match slot with
  | .root index => { h with program.roots := h.program.roots.setIfInBounds index object }
  | .field place => { h with memory := h.memory.store place object.word }

/-- The slots that hold the roots, in order. -/
def rootSlots (h : Heap) : List Slot := (List.range h.program.roots.size).map Slot.root

end Heap

end TracingHeap

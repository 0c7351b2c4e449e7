import TracingHeap.Work.Buffer

/-!
Shared work: the buffers of several collectors in front of one packet queue.
-/

namespace TracingHeap.Work

/-- A packet queue and the buffers in front of it. -/
structure Shared (α : Type) where
  queue : Packets α
  buffers : Array (Buffer α)
  deriving Inhabited

namespace Shared

variable {α β : Type}

/-- No work, for a number of buffers. -/
def empty (count : Nat) : Shared α := ⟨.empty, Array.replicate count #[]⟩

/-- The queue as a part. -/
@[inline] def queuePart : Focus (Shared α) (Packets α) := ⟨(·.queue), fun s q => { s with queue := q }⟩

/-- One buffer as a part. -/
@[inline] def bufferPart (index : Nat) : Focus (Shared α) (Buffer α) where
  get s := s.buffers[index]?.getD #[]
  set s b := { s with buffers := s.buffers.setIfInBounds index b }

/-- Runs a step of one buffer and the queue. -/
def onBuffer (index : Nat) (step : Step (Buffer α × Packets α) β) : Step (Shared α) β :=
  Step.onBoth (bufferPart index) queuePart step

end Shared

end TracingHeap.Work

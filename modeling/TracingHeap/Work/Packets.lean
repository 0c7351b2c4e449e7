import TracingHeap.Step

/-!
Packet queues: work shared between collectors, in packets that are taken last in, first out. A
participant that finds no packet waits; when every participant waits there is no work anywhere, and the
queue is drained for good. A participant that breaks off inside the queue poisons it for the others.
-/

namespace TracingHeap.Work

/-- Packets of work, and who is waiting for more. -/
structure Packets (α : Type) where
  /-- The packets, the last one on top. -/
  stack : List (Array α)
  /-- How many take part. -/
  participants : Word
  /-- How many of them wait. -/
  idle : Word
  /-- Has everyone been waiting at once? -/
  drained : Bool
  /-- Has some participant broken off? -/
  aborted : Bool
  /-- Did it break off inside the queue? -/
  poisoned : Bool
  deriving Inhabited

/-- What a participant finds that asks for a packet. -/
inductive Taken (α : Type) where
  | packet (items : Array α)
  /-- There is no work left, now or later. -/
  | nothing
  /-- Others may still bring work. -/
  | wait

namespace Packets

variable {α : Type}

/-- A queue without packets and participants. -/
def empty : Packets α := ⟨[], 0, 0, false, false, false⟩

/-- Enters the queue, unless a participant broke off inside it. -/
def enter : Step (Packets α) Unit := do
  Step.ensure (!(← get).poisoned) .poisonedLock

/-- Breaks off inside the queue. -/
def breakOff {β : Type} (fault : Fault) : Step (Packets α) β := do
  modify fun q => { q with poisoned := true }
  throw fault

/-- Starts over without packets, for a number of participants. -/
def reset (participants : Word) : Step (Packets α) Unit := do
  enter
  modify fun q => { q with stack := [], participants, idle := 0, drained := false, aborted := false }

/-- Adds a packet; an empty one is left out. No work may be added once the queue is drained. -/
def push (items : Array α) : Step (Packets α) Unit := do
  if items.isEmpty then return
  enter
  if (← get).drained then breakOff .pushAfterDrain
  modify fun q => { q with stack := items :: q.stack }

/-- Takes a packet if there is one. -/
def tryPop : Step (Packets α) (Option (Array α)) := do
  enter
  match (← get).stack with
  | [] => return none
  | items :: rest =>
    modify fun q => { q with stack := rest }
    return some items

/-- Looks for a packet inside the queue. A participant that finds none waits, unless it is the last one
not to wait: then the queue is drained. -/
def look : Step (Packets α) (Taken α) := do
  let q ← get
  if q.aborted then breakOff .workAborted
  match q.stack with
  | items :: rest =>
    set { q with stack := rest }
    return .packet items
  | [] =>
    if q.drained then return .nothing
    if q.idle + 1 = q.participants then
      set { q with drained := true }
      return .nothing
    set { q with idle := q.idle + 1 }
    return .wait

/-- Would a participant that asks for a packet now have to wait? -/
def mustWait (q : Packets α) : Bool :=
  q.stack.isEmpty && !q.drained && !q.aborted && q.idle + 1 != q.participants

/-- Asks for a packet. -/
def pop : Step (Packets α) (Taken α) := do
  enter
  look

/-- Asks again after waiting. -/
def resume : Step (Packets α) (Taken α) := do
  enter
  modify fun q => { q with idle := q.idle - 1 }
  look

/-- Tells everyone that a participant broke off; possible even if it did so inside the queue. -/
def abort : Step (Packets α) Unit := modify fun q => { q with aborted := true }

/-- Has everyone been waiting at once? -/
def isDrained : Step (Packets α) Bool := do
  enter
  return (← get).drained

/-- Is there no packet? -/
def isEmpty : Step (Packets α) Bool := do
  enter
  return (← get).stack.isEmpty

end Packets

end TracingHeap.Work

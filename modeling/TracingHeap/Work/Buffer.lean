import TracingHeap.Work.Packets

/-!
Buffers: the work that a collector keeps to itself in front of a packet queue, last in, first out. A full
buffer goes to the queue as one packet, and an empty one is replaced by a packet of the queue.
-/

namespace TracingHeap.Work

/-- The work of one collector. -/
abbrev Buffer (α : Type) := Array α

namespace Buffer

variable {α : Type}

/-- The most items a buffer holds. -/
def capacity : Nat := 512

/-- Sends the items of the buffer to the queue as one packet. -/
def flush : Step (Buffer α × Packets α) Unit := do
  let (buffer, _) ← get
  unless buffer.isEmpty do
    modify fun (_, q) => (#[], q)
    Step.on Focus.snd (Packets.push buffer)

/-- Adds an item; a full buffer is sent to the queue before. -/
def enqueue (item : α) : Step (Buffer α × Packets α) Unit := do
  if capacity ≤ (← get).1.size then flush
  modify fun (buffer, q) => (buffer.push item, q)

/-- What a collector finds that asks for an item. -/
inductive Item (α : Type) where
  | item (value : α)
  | nothing
  | wait

/-- Takes the last item of a packet of the queue and keeps the others. -/
def unpack (taken : Taken α) : Step (Buffer α × Packets α) (Item α) := do
  match taken with
  | .nothing => return .nothing
  | .wait => return .wait
  | .packet items =>
    modify fun (_, q) => (items.pop, q)
    match items.back? with
    | some value => return .item value
    | none => return .nothing

/-- Takes the last item, out of a packet of the queue if the buffer is empty. -/
def dequeue : Step (Buffer α × Packets α) (Item α) := do
  match (← get).1.back? with
  | some value =>
    modify fun (buffer, q) => (buffer.pop, q)
    return .item value
  | none => unpack (← Step.on Focus.snd Packets.pop)

/-- Asks again after waiting. -/
def resume : Step (Buffer α × Packets α) (Item α) := do
  unpack (← Step.on Focus.snd Packets.resume)

/-- Would a collector that asks for an item have to wait? -/
def mustWait (buffer : Buffer α) (q : Packets α) : Bool :=
  buffer.isEmpty && !q.poisoned && q.mustWait

/-- Takes up to `count` items after those in `taken`, until there is none. Answers false if it would have
to wait for one. -/
def dequeueMany (taken : Array α) : Nat → Step (Buffer α × Packets α) (Array α × Bool)
  | 0 => return (taken, true)
  | count + 1 => do
    let (buffer, q) ← get
    if mustWait buffer q then return (taken, false)
    match ← dequeue with
    | .item value => dequeueMany (taken.push value) count
    | _ => return (taken, true)

end Buffer

end TracingHeap.Work

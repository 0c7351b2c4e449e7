import TracingHeap.Collector.Copying

/-!
Tracing: what a collector does with a reference. The object is claimed, so that one collector alone
scans it; an object of an evacuated space is copied, and the answer is the place of its copy. Objects
outside of what the collection covers are left alone.
-/

namespace TracingHeap.Collector

/-- The allocators for copies as a part of the collector. -/
@[inline] def copiesPart : Focus Collector CopyContext := ⟨(·.copies), fun c x => { c with copies := x }⟩

/-- The objects to be scanned as a part of the collector. -/
@[inline] def bufferPart : Focus Collector (Work.Buffer Address) :=
  ⟨(·.buffer), fun c x => { c with buffer := x }⟩

variable {α : Type}

/-- Runs a step of the collector's buffer and the shared queue. -/
def onQueue (step : Step (Work.Buffer Address × Work.Packets Address) α) : Step (Collector × Heap) α :=
  Step.onBoth (Focus.fst.comp bufferPart)
    (Focus.snd.comp (Heap.backlogPart.comp Work.Backlog.objectsPart)) step

/-- Leaves an object to be scanned. -/
def enqueue (object : Address) : Step (Collector × Heap) Unit := onQueue (Work.Buffer.enqueue object)

/-- Counts an object that was marked, and leaves it to be scanned. -/
def reached (object : Address) : Step (Collector × Heap) Unit := do
  modify fun (c, h) => (c, { h with tally := h.tally.marked })
  enqueue object

/-- Copies an object that the collector claimed, publishes the copy and leaves it to be scanned. -/
def evacuate (id : SpaceId) (object : Address) (semantics : CopySemantics) :
    Step (Collector × Heap) Address := do
  let copy ← Step.onBoth (Focus.fst.comp copiesPart) Focus.snd (CopyContext.copy object semantics)
  Step.on Focus.snd (Heap.onCopying id do
    Step.on (Focus.fst.comp CopySpace.forwardingPart) (Forwarding.publish object copy)
    modify fun (s, m) => ({ s with copied := s.copied + 1 }, m))
  modify fun (c, h) =>
    (c, { h with tally := h.tally.copied (h.memory.header copy).size.toUInt64 })
  enqueue copy
  return copy

/-- Traces an object of a copying space. No answer means that another collector is still copying it. -/
def traceCopying (id : SpaceId) (object : Address) (semantics : CopySemantics) :
    Step (Collector × Heap) (Option Address) := do
  let claim : Step (CopySpace × Memory) (Option UInt8) := do
    if !(← get).1.evacuating then return none
    return some (← Step.on (Focus.fst.comp CopySpace.forwardingPart) (Forwarding.claim object))
  match ← Step.on Focus.snd (Heap.onCopying id claim) with
  | none => return some object
  | some state =>
    if ForwardingState.isTaken state then
      Step.on Focus.snd (Heap.onCopying id (Step.ask fun (s, _) => s.forwarding.look object state))
    else return some (← evacuate id object semantics)

/-- Traces an object of the mature store. -/
def traceMature (object : Address) : Step (Collector × Heap) Unit := do
  if ← Step.on Focus.snd (Heap.onMature (Step.on Focus.fst (MarkSweepSpace.claim object))) then
    reached object

/-- Traces an object of the immortal space. -/
def traceImmortal (object : Address) : Step (Collector × Heap) Unit := do
  if ← Step.on Focus.snd (Heap.onImmortal (Step.on Focus.fst (ImmortalSpace.claim object))) then
    reached object

/-- Traces an object of the large object space. -/
def traceLarge (object : Address) : Step (Collector × Heap) Unit := do
  match ← Step.on Focus.snd (Heap.onLarge (Step.on Focus.fst (LargeSpace.claim object))) with
  | none => return
  | some young =>
    modify fun (c, h) => (c, { h with tally := h.tally.marked })
    Step.on Focus.snd (Heap.onLarge
      (Step.on (Focus.fst.comp LargeSpace.treadmillPart) (Treadmill.save object young)))
    enqueue object

/-- Traces an object of a space, whatever the collection covers. -/
def traceIn (id : SpaceId) (object : Address) (semantics : CopySemantics) :
    Step (Collector × Heap) (Option Address) := do
  match (← get).2.spaces.space id with
  | .copying _ => traceCopying id object semantics
  | .markSweep _ => do traceMature object; return some object
  | .immortal _ => do traceImmortal object; return some object
  | .large _ => do traceLarge object; return some object

/-- What a copy made in a collection is for. -/
def promotion : Plan → CopySemantics
  | .generational => .mature
  | .semispace => .ordinary

/-- Does the collection cover a space? -/
def covers (h : Heap) : SpaceId → Bool
  | .first | .large => true
  | .second =>
    match h.plan with
    | .generational => h.scope.full
    | .semispace => true
  | .immortal => h.scope.tracesImmortal

/-- Traces an object: it is marked or copied if the collection covers its space. -/
def traceObject (object : Address) : Step (Collector × Heap) (Option Address) := do
  let (_, h) ← get
  match h.spaces.holding? object with
  | none => throw (.notInAnySpace object)
  | some id =>
    if covers h id then traceIn id object (promotion h.plan) else return some object

/-- Traces a reference in a collection that has been prepared. No answer means that another collector is
still copying the object. -/
def trace (object : Address) : Step (Collector × Heap) (Option Address) := do
  if object.isNull then return some object
  let (c, _) ← get
  match c.state with
  | .prepared | .closing => traceObject object
  | state => throw (.tracingOutOfTurn c.ordinal object state)

end TracingHeap.Collector

import TracingHeap.Collector.Tracing
import TracingHeap.Heap.References

/-!
Closures: how a collector works off its share of a collection. It takes root slots first, then remembered
objects, then the objects that it and others have left to be scanned, until nobody has any. The share is
worked off in small steps, each a slot, an object or a packet, so that the steps of several collectors
can be taken in any order.
-/

namespace TracingHeap

/-- What a collector turns to when it has nothing at hand. -/
inductive Stage where
  | roots
  | remembered
  | objects
  /-- It waits for the others to leave objects to be scanned. -/
  | waiting
  | finished
  deriving DecidableEq, Inhabited

/-- The share of one collector in a closure. -/
structure Share where
  stage : Stage
  /-- Slots at hand. -/
  slots : List Slot
  /-- Remembered objects at hand. -/
  remembered : List Address
  deriving DecidableEq, Inhabited

namespace Share

/-- A share of which nothing is done. -/
def new : Share := ⟨.roots, [], []⟩

/-- Is nothing left to do, now or later? -/
def isFinished (s : Share) : Bool := s.stage == .finished

/-- Traces the reference in a slot, and replaces it if the object moved. Answers false if another
collector is still copying the object. -/
def processSlot (slot : Slot) : Step (Collector × Heap) Bool := do
  let object := (← get).2.refOf slot
  match ← Collector.trace object with
  | none => return false
  | some moved =>
    unless moved = object do modify fun (c, h) => (c, h.setRef slot moved)
    return true

/-- Takes a remembered object: it can be remembered again, and a collection of young objects alone has
its slots to do. -/
def takeRemembered (object : Address) : Step (Collector × Heap) (List Slot) := do
  modify fun (c, h) =>
    (c, { h with memory := h.memory.setMark object (h.memory.mark object).unlogged })
  let (_, h) ← get
  return if h.nurseryOnly then h.memory.slotsOf object else []

/-- The share of a collector that asked for an object to be scanned. -/
def ofItem (item : Work.Buffer.Item Address) : Step (Collector × Heap) Share := do
  match item with
  | .item object => return ⟨.objects, (← get).2.memory.slotsOf object, []⟩
  | .nothing => return ⟨.finished, [], []⟩
  | .wait => return ⟨.waiting, [], []⟩

/-- Turns to what comes next. -/
def proceed : Stage → Step (Collector × Heap) Share
  | .roots => do
    match ← Step.on (Focus.snd.comp Heap.backlogPart) Work.Backlog.popRoots with
    | some slots => return ⟨.roots, slots.toList, []⟩
    | none => return ⟨.remembered, [], []⟩
  | .remembered => do
    match ← Step.on (Focus.snd.comp Heap.backlogPart) Work.Backlog.popRemembered with
    | some objects => return ⟨.remembered, [], objects.toList⟩
    | none => return ⟨.objects, [], []⟩
  | .objects => do ofItem (← Collector.onQueue Work.Buffer.dequeue)
  | .waiting => do ofItem (← Collector.onQueue Work.Buffer.resume)
  | .finished => return ⟨.finished, [], []⟩

/-- Does a step. No answer means that the collector has to wait for another one. -/
def step (s : Share) : Step (Collector × Heap) (Option Share) := do
  match s.slots, s.remembered with
  | slot :: slots, _ =>
    if ← processSlot slot then return some { s with slots } else return none
  | [], object :: remembered =>
    return some ⟨s.stage, ← takeRemembered object, remembered⟩
  | [], [] =>
    let next ← proceed s.stage
    if s.stage = .waiting ∧ next.stage = .waiting then return none else return some next

/-- Does steps until the share is finished, at most `fuel` of them. -/
def run (s : Share) : Nat → Step (Collector × Heap) Unit
  | 0 => throw .stalled
  | fuel + 1 => do
    if s.isFinished then return
    match ← s.step with
    | some next => next.run fuel
    | none => throw .stalled

end Share

namespace Collector

/-- More steps than any collection takes. -/
def enoughSteps : Nat := 4611686018427387904

/-- Starts a closure. -/
def beginClosure : Step (Collector × Heap) Unit := do
  let (c, _) ← get
  match c.state with
  | .prepared | .closing => modify fun (c, h) => ({ c with state := .closing }, h)
  | state => throw (.closureOutOfTurn c.ordinal state)

/-- Carries a closure out alone. -/
def closure : Step (Collector × Heap) Unit := do
  beginClosure
  Share.new.run enoughSteps

end Collector

end TracingHeap

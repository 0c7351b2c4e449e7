import TracingHeap.Collector.Closure
import TracingHeap.Heap.Budget

/-!
Phases: what is done once, for each mutator and on each collector in a collection. Spaces are prepared
before anything is traced and released after everything was; the sweep of the mature store comes after
all allocators have dropped their free cells.
-/

namespace TracingHeap

namespace Heap

/-- Does the collection that starts cover the whole heap? It does if the program asked for that, if the
last one left too little room, if collections have failed to make room, if a space other than the nursery
was full, and if not everything in the nursery could be promoted. -/
def wantsFull (h : Heap) : Except Fault Bool := do
  if h.demand.byUser && h.settings.fullOnRequest then return true
  if h.scope.nextFull || h.demand.emergency then return true
  if h.demand.spaceFull && h.demand.causeOf.any (· != SpaceId.first.tag) then return true
  return (← h.pagesTotal) ≤ (← h.pagesReserved)

/-- Prepares the spaces that every heap has. -/
def prepareCommon (full : Bool) : Step Heap Unit := do
  modify fun h => { h with scope.tracesImmortal := full }
  if full then onImmortal (Step.on Focus.fst ImmortalSpace.prepare)
  onLarge (Step.on Focus.fst (LargeSpace.prepare full))

/-- Releases the spaces that every heap has. -/
def releaseCommon (full : Bool) : Step Heap Unit := do
  onLarge (LargeSpace.release full)
  if full then onImmortal (Step.on Focus.fst ImmortalSpace.release)

/-- Starts a collection. -/
def prepare : Step Heap Unit := do
  match (← get).plan with
  | .generational =>
    let full ← Step.ask wantsFull
    modify fun h => { h with scope.full := full }
    prepareCommon full
    if full then onMature (Step.on Focus.fst MarkSweepSpace.prepare)
    onFirst (Step.on Focus.fst (CopySpace.prepare true))
  | .semispace =>
    prepareCommon true
    modify fun h => { h with scope.flipped := !h.scope.flipped }
    let flipped := (← get).scope.flipped
    onCopying .first (Step.on Focus.fst (CopySpace.prepare flipped))
    onCopying .second (Step.on Focus.fst (CopySpace.prepare !flipped))
  let threads := (← get).settings.threads
  Step.on backlogPart (Work.Backlog.prepare threads)

/-- Ends a collection. A generational heap decides here whether the next one has to cover the whole heap
because there is no room left for a nursery. -/
def release : Step Heap Unit := do
  match (← get).plan with
  | .generational =>
    let full := (← get).scope.full
    onFirst CopySpace.release
    releaseCommon full
    if full then onMature MarkSweepSpace.release
    Step.on backlogPart Work.Backlog.release
    let available ← Step.ask pagesAvailable
    let nursery ← Step.ask fun h => h.settings.maxNurseryPages
    modify fun h => { h with scope.nextFull := decide (available < nursery) }
  | .semispace =>
    releaseCommon true
    onCopying (← get).other CopySpace.release
    Step.on backlogPart Work.Backlog.release

/-- What is done once in a phase. -/
def globalPhase : Phase → Step Heap Unit
  | .prepare => prepare
  | .release => release
  | phase => throw (.noGlobalPhase phase)

variable {α : Type}

/-- Runs a step of one mutator. -/
def onMutator (index : Nat) (step : Step Mutator α) : Step Heap α := Step.on (mutatorPart index) step

/-- Hands the objects that a mutator remembers to the collectors. -/
def flush (index : Nat) : Step Heap Unit := do
  let remembered ← onMutator index (modifyGet fun m => (m.remembered, { m with remembered := #[] }))
  Step.on backlogPart (Work.Backlog.pushRemembered remembered)

/-- What a mutator does before a collection: it hands over what it remembers, and drops its free cells
if they are about to be swept. -/
def prepareMutator (index : Nat) : Step Heap Unit := do
  flush index
  let h ← get
  match h.plan with
  | .generational =>
    unless h.nurseryOnly do
      onMutator index (modify fun m => { m with allocators := m.allocators.resetCells })
  | .semispace => pure ()

/-- What a mutator does after a collection: the memory it allocated ordinary objects in is gone. -/
def releaseMutator (index : Nat) : Step Heap Unit := do
  let current := (← get).current
  onMutator index (modify fun m => { m with allocators := m.allocators.rebindBump 0 current })

/-- What is done for one mutator in a phase. -/
def phaseOfMutator (phase : Phase) (index : Nat) : Step Heap Unit :=
  match phase with
  | .prepare => prepareMutator index
  | .release => releaseMutator index
  | phase => throw (.noMutatorPhase phase)

/-- What is done for each mutator in a phase. -/
def mutatorPhase (phase : Phase) : Step Heap Unit := do
  (List.range (← get).program.mutators.size).forM (phaseOfMutator phase)

end Heap

namespace Collector

/-- How many root slots go into one packet. -/
def rootPacket : Nat := 256

/-- A list cut into packets of at most `size` items. -/
def packets {α : Type} (size : Nat) : Nat → List α → List (Array α)
  | 0, _ => []
  | _, [] => []
  | fuel + 1, items => (items.take size).toArray :: packets size fuel (items.drop size)

/-- Prepares a collector. Its allocator for copies moves to the half that is in use now. -/
def prepare : Step (Collector × Heap) Unit := do
  let (c, h) ← get
  match c.state with
  | .unused | .released =>
    modify fun (c, h) => ({ c with buffer := #[], state := .prepared }, h)
  | state => throw (.prepareOutOfTurn c.ordinal state)
  match h.plan with
  | .generational => pure ()
  | .semispace =>
    let copies ← c.copies.rebind 0 h.current
    modify fun (c, h) => ({ c with copies }, h)

/-- Finds the roots; the first collector does so for all. -/
def findRoots : Step (Collector × Heap) Unit := do
  let (c, h) ← get
  unless c.state = .prepared do throw (.rootsOutOfTurn c.ordinal c.state)
  if c.isPrimary then
    let slots := h.rootSlots
    (packets rootPacket slots.length slots).forM fun packet =>
      Step.on (Focus.snd.comp Heap.backlogPart) (Work.Backlog.pushRoots packet)

/-- Releases a collector, which may have nothing left to scan. Free cells are dropped before a sweep. -/
def release : Step (Collector × Heap) Unit := do
  let (_, h) ← get
  if h.plan = .generational ∧ h.scope.full then
    modify fun (c, h) => ({ c with copies := c.copies.resetCells }, h)
  let (c, _) ← get
  unless c.state = .closing do throw (.releaseOutOfTurn c.ordinal c.state)
  unless c.buffer.isEmpty do throw .releasedWithWork
  modify fun (c, h) => ({ c with state := .released }, h)

/-- What a collector does in a phase, without the others. -/
def phase : Phase → Step (Collector × Heap) Unit
  | .prepare => prepare
  | .roots => findRoots
  | .closure => closure
  | .release => release

end Collector

end TracingHeap

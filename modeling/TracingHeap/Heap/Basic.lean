import TracingHeap.Collector.Basic
import TracingHeap.Demand
import TracingHeap.Mutator.Basic
import TracingHeap.Tally
import TracingHeap.Work.Backlog

/-!
Heaps: the whole state that operations work on, and how one is laid out from its settings.
-/

namespace TracingHeap

/-- A place that holds a reference and is updated when the object moves. -/
inductive Slot where
  /-- A root of the program. -/
  | root (index : Nat)
  /-- A slot of an object. -/
  | field (place : Address)
  deriving DecidableEq, Inhabited

/-- What the present or last collection covers, and what the next one has to. -/
structure Scope where
  /-- Does it cover the mature store? -/
  full : Bool
  /-- Does it trace the immortal space? -/
  tracesImmortal : Bool
  /-- Must the next one cover the whole heap? -/
  nextFull : Bool
  /-- Is the second half in use? -/
  flipped : Bool
  deriving DecidableEq, Inhabited

/-- The program that uses the heap, as far as the heap sees it. -/
structure Program where
  /-- The objects that the program refers to itself. -/
  roots : Array Address
  /-- Its threads, in the order in which they were bound. -/
  mutators : Array Mutator
  /-- How often the threads were stopped and resumed. -/
  stops : Nat
  resumes : Nat
  /-- The shortages that were reported to it. -/
  shortages : Array Shortage
  /-- Does it break off when a shortage is reported? -/
  breaksOff : Bool
  deriving Inhabited

/-- A heap. -/
structure Heap where
  settings : Settings
  memory : Memory
  layout : Layout
  spaces : Spaces
  scope : Scope
  demand : Demand
  /-- May spaces ask for collections? -/
  armed : Bool
  tally : Tally
  /-- The work of the present collection, and the remembered objects. -/
  backlog : Work.Backlog Slot Address
  /-- The collectors, once they are there. -/
  collectors : Option (Array Collector)
  /-- Did a collection break off? Then there will be no other. -/
  disabled : Bool
  program : Program
  deriving Inhabited

namespace Heap

/-- The memory as a part of the heap. -/
@[inline] def memoryPart : Focus Heap Memory := ⟨(·.memory), fun h m => { h with memory := m }⟩

/-- The spaces as a part of the heap. -/
@[inline] def spacesPart : Focus Heap Spaces := ⟨(·.spaces), fun h s => { h with spaces := s }⟩

/-- The backlog as a part of the heap. -/
@[inline] def backlogPart : Focus Heap (Work.Backlog Slot Address) :=
  ⟨(·.backlog), fun h b => { h with backlog := b }⟩

/-- One mutator as a part of the heap. -/
@[inline] def mutatorPart (index : Nat) : Focus Heap Mutator where
  get h := h.program.mutators[index]?.getD default
  set h m := { h with program.mutators := h.program.mutators.setIfInBounds index m }

/-- The plan of the heap. -/
def plan (h : Heap) : Plan := h.spaces.plan

variable {α : Type}

/-- Runs a step of the spaces and the memory. -/
def onSpaces (step : Step (Spaces × Memory) α) : Step Heap α := Step.onBoth spacesPart memoryPart step

/-- Runs a step of the first space. -/
def onFirst (step : Step (CopySpace × Memory) α) : Step Heap α :=
  onSpaces (Spaces.onCopying .first step)

/-- Runs a step of a copying space. -/
def onCopying (id : SpaceId) (step : Step (CopySpace × Memory) α) : Step Heap α :=
  onSpaces (Spaces.onCopying id step)

/-- Runs a step of the mature store. -/
def onMature (step : Step (MarkSweepSpace × Memory) α) : Step Heap α :=
  onSpaces (Step.onBoth (Focus.fst.comp Spaces.secondPart) Focus.snd (Spaces.onMature step))

/-- Runs a step of the immortal space. -/
def onImmortal (step : Step (ImmortalSpace × Memory) α) : Step Heap α :=
  Step.onBoth (spacesPart.comp Spaces.immortalPart) memoryPart step

/-- Runs a step of the large object space. -/
def onLarge (step : Step (LargeSpace × Memory) α) : Step Heap α :=
  Step.onBoth (spacesPart.comp Spaces.largePart) memoryPart step

/-- The space in which ordinary objects are allocated. -/
def current (h : Heap) : SpaceId :=
  match h.plan with
  | .generational => .first
  | .semispace => if h.scope.flipped then .second else .first

/-- The half that is not in use. -/
def other (h : Heap) : SpaceId := if h.scope.flipped then .first else .second

/-- Does the present or last collection leave old objects alone? -/
def nurseryOnly (h : Heap) : Bool :=
  match h.plan with
  | .generational => !h.scope.full
  | .semispace => false

/-- Did the present or last collection cover the whole heap? -/
def lastFull (h : Heap) : Bool :=
  match h.plan with
  | .generational => h.scope.full
  | .semispace => true

/-- Lays out a space, or stops with the error. -/
def layOut (step : Step Layout (Except Layout.Error α)) : ExceptT Layout.Error (Step Layout) α := step

/-- Lays out the spaces of a plan. Only a generational heap has a write barrier. -/
def layOutSpaces (settings : Settings) : ExceptT Layout.Error (Step Layout) Spaces := do
  match settings.plan with
  | .generational =>
    let nursery ← layOut (CopySpace.create "nursery" (.bytes settings.nurserySize) true false)
    let mature ← layOut (MarkSweepSpace.create "mature" .unbounded true)
    let immortal ← layOut (ImmortalSpace.create "immortal" (.bytes settings.immortalSize) true)
    let large ← layOut (LargeSpace.create "los" .unbounded true)
    return ⟨nursery, .mature mature, immortal, large⟩
  | .semispace =>
    let low ← layOut (CopySpace.create "copyspace0" .unbounded false false)
    let high ← layOut (CopySpace.create "copyspace1" .unbounded false true)
    let immortal ← layOut (ImmortalSpace.create "immortal" (.bytes settings.immortalSize) false)
    let large ← layOut (LargeSpace.create "los" .unbounded false)
    return ⟨low, .twin high, immortal, large⟩

/-- A heap of the given settings, without collectors and mutators. -/
def create (settings : Settings) (breaksOff : Bool) : Except Fault (Except Layout.Error Heap) :=
  match (layOutSpaces settings).run (Layout.empty settings.heapSize) with
  | .error e _ => .error e
  | .ok (.error e) _ => .ok (.error e)
  | .ok (.ok spaces) layout =>
    .ok (.ok {
      settings, layout, spaces
      memory := .empty
      scope := ⟨false, true, false, false⟩
      demand := .initial
      armed := false
      tally := .empty
      backlog := .empty
      collectors := none
      disabled := false
      program := ⟨#[], #[], 0, 0, #[], breaksOff⟩ })

/-- A new mutator of a thread. -/
def newMutator (h : Heap) (thread : Address) : Except Fault Mutator := do
  let allocators ← AllocatorSet.bind h.spaces (fun id => .nothingToBind (h.spaces.nameOf id))
    (Mutator.bindings h.current h.plan)
  return ⟨thread, allocators, #[]⟩

/-- Binds a mutator to a thread of the program. -/
def bindMutator (thread : Address) : Step Heap Unit := do
  let m ← Step.ask (·.newMutator thread)
  modify fun h => { h with program.mutators := h.program.mutators.push m }

/-- A new collector. -/
def newCollector (h : Heap) (ordinal : Nat) : Except Fault Collector := do
  return .new ordinal (← CopyContext.create h.spaces (CopyContext.bindings h.current h.plan))

/-- A group of new collectors. -/
def newCollectors (h : Heap) (count : Nat) : Except Fault (Array Collector) := do
  if count = 0 then throw .emptyGroup
  (Array.range count).mapM fun ordinal => h.newCollector ordinal

/-- Sets the collectors up, once. -/
def setCollectors (group : Array Collector) : Step Heap Unit := do
  let h ← get
  Step.ensure (!h.disabled) .poisonedLock
  if h.collectors.isSome then
    modify fun h => { h with disabled := true }
    throw .collectorsBoundTwice
  modify fun h => { h with collectors := some group }

/-- Enables collections, once. -/
def start : Step Heap Unit := do
  Step.ensure (!(← get).demand.started) .startedTwice
  modify fun h => { h with armed := true }
  let group ← Step.ask fun h => h.newCollectors h.settings.threads.toNat
  setCollectors group
  modify fun h => { h with demand.started := true }

end Heap

end TracingHeap

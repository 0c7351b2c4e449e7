import TracingHeap.Session.Basic

/-!
What a session drives by hand: a collector that goes through the phases on its own, groups of collectors,
and allocators that belong to no thread.
-/

namespace TracingHeap.Session

variable {α : Type}

/-- Sets up a collector to drive by hand. -/
def newCollector (ordinal : Nat) : Step Session Collector := do
  let c ← Step.ask fun s => s.heap.newCollector ordinal
  modify fun s => { s with collector := some c }
  return c

/-- The collector driven by hand. -/
def handCollector (s : Session) : Except Refusal Collector :=
  match s.collector with
  | none => .error .noCollector
  | some c => .ok c

/-- Runs a step of the collector driven by hand. -/
def onCollector (step : Step (Collector × Heap) α) : Step Session (Except Refusal α) := fun s =>
  match s.collector with
  | none => .ok (.error .noCollector) s
  | some c =>
    let h := s.heap
    let s := { s with collector := none, heap := default }
    match step (c, h) with
    | .ok a (c, h) => .ok (.ok a) { s with collector := some c, heap := h }
    | .error e (c, h) => .error e { s with collector := some c, heap := h }

/-- Would the collector wait for ever if it carried out a phase? -/
def wouldBlock (s : Session) (c : Collector) (phase : Phase) : Bool :=
  phase == .closure && !s.tracing && (c.state == .prepared || c.state == .closing)

/-- Carries out a phase of the collector driven by hand. -/
def collectorPhase (phase : Phase) : Step Session (Except Refusal Unit) := do
  let s ← get
  match s.collector with
  | none => return .error .noCollector
  | some c =>
    if s.wouldBlock c phase then return .error .wouldBlock
    onCollector (Collector.phase phase)

/-- Carries out a global phase. -/
def globalPhase (phase : Phase) : Step Session Unit := do
  onHeap (Heap.globalPhase phase)
  if phase = .prepare then modify fun s => { s with tracing := true }
  else modify survey

/-- Sets up a group of collectors, and carries out a collection with it if `run` says so. -/
def runGroup (size : Nat) (run : Bool) : Step Session (Except Refusal Nat) := do
  if 8 < size ∨ (run ∧ size ≠ (← get).heap.settings.threads.toNat) then return .error .badGroupSize
  let group ← Step.ask fun s => s.heap.newCollectors size
  if run then
    let (_, ended) ← onHeap (Heap.collectWith group)
    match ended with
    | .error e => throw e
    | .ok () => modify fun s => { s.survey with tracing := true }
  return .ok size

/-- Copies of the given sizes, made one after another by allocators of their own. -/
def copiesInto (destinations : List (AllocatorSelector × SpaceId))
    (copies : List (Word × CopySemantics)) : Step Session (List (Except Fault Address)) := do
  let context ← Step.ask fun s => CopyContext.create s.heap.spaces destinations
  let rec go (context : CopyContext) :
      List (Word × CopySemantics) → Step Session (List (Except Fault Address))
    | [] => return []
    | (bytes, semantics) :: rest => do
      let s ← get
      set { s with heap := default }
      let r : Request := ⟨bytes, Padding.minAlignment, 0⟩
      match CopyContext.alloc .null r semantics (context, s.heap) with
      | .ok a (context, heap) =>
        set { s with heap }
        return .ok a :: (← go context rest)
      | .error e (context, heap) =>
        set { s with heap }
        return .error e :: (← go context rest)
  go context copies

/-- Prepares a space as a collection would; `evacuate` is for copying spaces and `full` for large
objects. -/
def prepareSpace (id : SpaceId) (evacuate full : Bool) : Step Heap Unit := do
  match (← get).spaces.space id with
  | .copying _ => Heap.onCopying id (Step.on Focus.fst (CopySpace.prepare evacuate))
  | .markSweep _ => Heap.onMature (Step.on Focus.fst MarkSweepSpace.prepare)
  | .immortal _ => Heap.onImmortal (Step.on Focus.fst ImmortalSpace.prepare)
  | .large _ => Heap.onLarge (Step.on Focus.fst (LargeSpace.prepare full))

/-- Releases a space as a collection would. -/
def releaseSpace (id : SpaceId) (full : Bool) : Step Heap Unit := do
  match (← get).spaces.space id with
  | .copying _ => Heap.onCopying id CopySpace.release
  | .markSweep _ => Heap.onMature MarkSweepSpace.release
  | .immortal _ => Heap.onImmortal (Step.on Focus.fst ImmortalSpace.release)
  | .large _ => Heap.onLarge (LargeSpace.release full)

/-- Counts the objects of a space as lost. -/
def loseObjectsOf (s : Session) (id : SpaceId) : Session :=
  { s with objects := s.objects.lose (s.heap.spaces.space id).extent.holds }

end Session

namespace LooseAllocator

/-- A new allocator for a space; the number of the selector does not matter. -/
def create (spaces : Spaces) (kind : AllocatorSelector) (id : SpaceId) :
    Except Session.Refusal LooseAllocator :=
  match kind, spaces.space id with
  | .bump _, _ => .ok (bump (.new id))
  | .cells _, .markSweep _ => .ok (cells .new)
  | .large _, .large _ => .ok large
  | .none, _ => .error .unknownAllocator
  | _, _ => .error .wrongSpace

/-- The space of an allocator. -/
def space : LooseAllocator → SpaceId
  | bump b => b.space
  | cells _ => .second
  | large => .large

/-- Does the allocator keep memory between requests? -/
def keepsMemory : LooseAllocator → Bool
  | large => false
  | _ => true

/-- Where a bump allocator goes on, and the bytes that it has left. -/
def rest? : LooseAllocator → Option (Address × Word)
  | bump b => some (b.cursor, b.limit.word - b.cursor.word)
  | _ => none

/-- Drops the memory of the allocator. -/
def reset : LooseAllocator → LooseAllocator
  | bump b => bump b.reset
  | cells _ => cells .new
  | large => large

/-- Serves a request, out of fresh memory if `slow` says so. -/
def alloc (r : Request) (slow : Bool) : Step (LooseAllocator × Heap) (Option Address)
  | (bump b, h) =>
    match (if slow then BumpAllocator.allocFresh r else BumpAllocator.alloc r) (b, h) with
    | .ok a (b, h) => .ok a (bump b, h)
    | .error e (b, h) => .error e (bump b, h)
  | (cells c, h) =>
    match (if slow then CellAllocator.allocFresh r else CellAllocator.alloc r) (c, h) with
    | .ok a (c, h) => .ok a (cells c, h)
    | .error e (c, h) => .error e (cells c, h)
  | (large, h) =>
    match (if slow then LargeAllocator.allocFresh r else LargeAllocator.alloc r) h with
    | .ok a h => .ok a (large, h)
    | .error e h => .error e (large, h)

/-- What is asked of an allocator. -/
inductive Use where
  | rebind (space : SpaceId)
  | reset
  | serve (r : Request) (slow : Bool)

end LooseAllocator

namespace Session

/-- Sets up an allocator that belongs to no thread. -/
def addAllocator (kind : AllocatorSelector) (id : SpaceId) :
    Step Session (Except Refusal LooseAllocator) := do
  match LooseAllocator.create (← get).heap.spaces kind id with
  | .error r => return .error r
  | .ok l =>
    modify fun s => { s with allocators := s.allocators.push l }
    return .ok l

/-- One allocator as a part of the session. -/
def allocatorPart (index : Nat) : Focus Session LooseAllocator where
  get s := s.allocators[index]?.getD .large
  set s l := { s with allocators := s.allocators.setIfInBounds index l }

/-- An allocator that belongs to no thread. -/
def allocatorAt (s : Session) (index : Nat) : Except Refusal LooseAllocator :=
  match s.allocators[index]? with
  | some l => .ok l
  | none => .error .noSuchAllocator

/-- Uses an allocator. -/
def useAllocator (index : Nat) (use : LooseAllocator.Use) :
    Step Session (Except Refusal (Option Address)) := do
  match (← get).allocatorAt index, use with
  | .error r, _ => return .error r
  | .ok (.bump b), .rebind id =>
    modify fun s => (allocatorPart index).set s (.bump (b.rebind id))
    return .ok none
  | .ok _, .rebind _ => return .error .noBumpAllocator
  | .ok l, .reset =>
    modify fun s => (allocatorPart index).set s l.reset
    return .ok none
  | .ok _, .serve r slow =>
    return .ok (← Step.onBoth (allocatorPart index) heapPart (LooseAllocator.alloc r slow))

end Session

end TracingHeap

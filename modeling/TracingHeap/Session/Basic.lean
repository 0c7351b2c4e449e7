import TracingHeap.Session.Registry

/-!
Sessions: a heap that is driven from outside, step by step. Objects are known by identity, and a session
keeps track of where they are: after every collection it takes a census.
-/

namespace TracingHeap

/-- An allocator that belongs to no thread. -/
inductive LooseAllocator where
  | bump (allocator : BumpAllocator)
  | cells (allocator : CellAllocator)
  | large
  deriving Inhabited

/-- A heap that is driven from outside. -/
structure Session where
  heap : Heap
  objects : Registry
  /-- The number of collections when the last census was taken. -/
  surveyed : Word
  /-- A collector that is driven by hand. -/
  collector : Option Collector
  /-- Allocators that belong to no thread. -/
  allocators : Array LooseAllocator
  /-- Has work for collectors ever been prepared? Before that a closure would wait for ever. -/
  tracing : Bool
  deriving Inhabited

namespace Session

/-- Why a session does not carry out a step. -/
inductive Refusal where
  | unknownObject
  | lostObject
  | nullObject
  | noSuchRoot
  | noSuchAllocator
  | noBumpAllocator
  | wrongSpace
  | noCollector
  | wouldBlock
  | badGroupSize
  | mutatorExists
  | noSuchMutator
  | tooManySlots
  | badSize
  | unknownAllocator
  deriving DecidableEq

/-- A refusal in words. -/
def Refusal.message : Refusal → String
  | unknownObject => "unknown object"
  | lostObject => "lost object"
  | nullObject => "null object"
  | noSuchRoot => "no such root"
  | noSuchAllocator => "no such allocator"
  | noBumpAllocator => "not a bump allocator"
  | wrongSpace => "wrong space"
  | noCollector => "no collector"
  | wouldBlock => "would block"
  | badGroupSize => "bad group size"
  | mutatorExists => "mutator exists"
  | noSuchMutator => "no such mutator"
  | tooManySlots => "too many slots"
  | badSize => "bad size"
  | unknownAllocator => "unknown allocator"

/-- The handle of the thread with a number. -/
def threadOf (number : Word) : Except Fault Address := do
  let successor ← number.sum 1
  return ⟨← successor.product Word.wordBytes⟩

/-- The greatest number of a thread that may use the heap. -/
def lastThread : Word := 1000

/-- The heap as a part of the session. -/
@[inline] def heapPart : Focus Session Heap := ⟨(·.heap), fun s h => { s with heap := h }⟩

variable {α : Type}

/-- Runs a step of the heap. -/
@[inline] def onHeap (step : Step Heap α) : Step Session α := Step.on heapPart step

/-- A session with a new heap, with one thread; collections are enabled unless it is left `idle`. -/
def start (settings : Settings) (breaksOff idle : Bool) : Except Fault (Except Layout.Error Session) := do
  let thread ← threadOf 0
  match ← Heap.create settings breaksOff with
  | .error e => return .error e
  | .ok heap =>
    let ready : Step Heap Unit := do
      unless idle do Heap.start
      Heap.bindMutator thread
    match ready heap with
    | .error e _ => throw e
    | .ok () heap => return .ok ⟨heap, .empty, 0, none, #[], false⟩

/-- Takes a census. -/
def survey (s : Session) : Session := { s with objects := s.objects.survey s.heap }

/-- Takes a census if there was a collection since the last one. -/
def refresh (s : Session) : Session :=
  if s.heap.demand.count = s.surveyed then s
  else { s.survey with surveyed := s.heap.demand.count, tracing := true }

/-- Is it settled where objects are copied to? With several collectors that depends on who comes first. -/
def settlesPlaces (s : Session) : Bool := s.heap.settings.threads == 1

/-- Addresses below this are in no space, and written as they are. -/
def lowest : Word := 0x10000

/-- How an address is written: by its space and its distance from the start, if places are settled. -/
def placeText (s : Session) (a : Address) : String :=
  match s.heap.spaces.holding? a with
  | some id =>
    let name := s.heap.spaces.nameOf id
    let start := (s.heap.spaces.space id).extent.start
    if s.settlesPlaces then name ++ "+0x" ++ (a.word - start.word).hex else name
  | none => if a.word < lowest then a.text else "outside"

/-- The place of a thread's mutator among all, if the thread has one. -/
def mutator? (s : Session) (thread : Address) : Option Nat :=
  s.heap.program.mutators.findIdx? (·.thread == thread)

/-- The place of the mutator of the thread with a number. -/
def mutatorOf (s : Session) (number : Word) : Except Refusal Nat :=
  match (threadOf number).toOption.bind s.mutator? with
  | some index => .ok index
  | none => .error .noSuchMutator

/-- Gives a mutator to a thread that has none and may have one. Answers how many there are. -/
def bindThread (number : Word) : Step Session (Except Refusal Nat) := do
  if lastThread < number then return .error .mutatorExists
  let thread ← Step.ask fun _ => threadOf number
  if ((← get).mutator? thread).isSome then return .error .mutatorExists
  onHeap (Heap.bindMutator thread)
  return .ok (← get).heap.program.mutators.size

/-- An object that is known, though it may be lost. -/
def known (s : Session) (id : Word) : Except Refusal Whereabouts :=
  match s.objects.find? id with
  | some w => .ok w
  | none => .error .unknownObject

/-- The place of an object that is not lost. -/
def placeOf (s : Session) (id : Word) : Except Refusal Address := do
  let w ← s.known id
  if w.lost then .error .lostObject else .ok w.place

/-- Puts the identity into an object's payload, and into its last byte if there is one to spare. -/
def label (object : Address) (id bytes slots : Word) : Step Heap Unit := do
  let place := (← get).payloadOf object
  modify fun h => { h with memory := h.memory.store place id }
  if Census.sizeWithId slots < bytes then
    modify fun h => { h with memory := h.memory.storeByte (object.plus (bytes - 1)) id.toUInt8 }

/-- An object to be allocated. -/
structure Newcomer where
  /-- The number of the thread that asks for it. -/
  thread : Word
  /-- Its identity, which goes into its payload. -/
  id : Word
  slots : Word
  semantics : AllocSemantics
  /-- Its size, or nothing if it is to be as small as can be. -/
  bytes : Option Word

/-- The most bytes of an object of a given size. -/
def largest : Word := 1073741824

/-- Refuses an object with more slots than a header can tell, and one that is large enough for its slots
but not for the identity. -/
def Newcomer.check (n : Newcomer) : Except Refusal Unit := do
  if 65535 < n.slots then throw .tooManySlots
  match n.bytes with
  | none => return
  | some bytes =>
    let room := Census.sizeWithId n.slots
    if (max 16 (room - 8) ≤ bytes ∧ bytes < room) ∨ largest < bytes then throw .badSize

/-- Allocates an object and gives it its identity; one of a given size may be refused. -/
def newObject (mutator : Nat) (n : Newcomer) : Step Heap (Option Address) := do
  match n.bytes with
  | none => return some (← Heap.newObjectWithId mutator n.slots n.id n.semantics)
  | some bytes =>
    match ← Heap.newObject mutator bytes n.slots n.semantics with
    | none => return none
    | some object =>
      label object n.id bytes n.slots
      return some object

/-- Allocates an object and enters it under its identity. -/
def allocate (n : Newcomer) : Step Session (Except Refusal (Option Address)) := do
  match n.check, (← get).mutatorOf n.thread with
  | .error r, _ | _, .error r => return .error r
  | .ok (), .ok mutator =>
    let object ← onHeap (newObject mutator n)
    modify refresh
    match object with
    | none => return .ok none
    | some object =>
      modify fun s => { s with objects := s.objects.enter n.id object }
      return .ok (some object)

/-- Adds a root. Answers its number. -/
def addRoot (object : Address) : Step Session Nat := do
  let index := (← get).heap.program.roots.size
  modify fun s => { s with heap.program.roots := s.heap.program.roots.push object }
  return index

/-- A root. -/
def rootAt (s : Session) (index : Word) : Except Fault Address :=
  match s.heap.program.roots[index.toNat]? with
  | some object => .ok object
  | none => .error (.indexOutOfBounds s.heap.program.roots.size index.toNat)

/-- Replaces a root. -/
def setRoot (index : Word) (object : Address) : Step Session Unit := do
  let _ ← Step.ask (·.rootAt index)
  modify fun s =>
    { s with heap.program.roots := s.heap.program.roots.setIfInBounds index.toNat object }

/-- Drops all roots. -/
def clearRoots : Step Session Unit := modify fun s => { s with heap.program.roots := #[] }

/-- What becomes of each object of a row. -/
structure Links where
  /-- Every so many objects one becomes a root; none does if this is zero. -/
  rootEvery : Word
  /-- The root that each object takes over as the head of a list. -/
  chain : Option Word

/-- A row of objects that was allocated. -/
structure Row where
  count : Nat
  last : Option Address
  /-- A digest of the places in their spaces, as they were at first. -/
  digest : Nat

/-- The distance of an object from the start of its space. -/
def offsetOf (h : Heap) (object : Address) : Nat :=
  match h.spaces.holding? object with
  | some id => (object.word - (h.spaces.space id).extent.start.word).toNat
  | none => 0

/-- Links an object of a row. -/
def link (mutator : Nat) (links : Links) (position : Nat) (object : Address) : Step Session Unit := do
  if links.rootEvery ≠ 0 ∧ position % links.rootEvery.toNat = 0 then
    let _ ← addRoot object
  match links.chain with
  | none => return
  | some root =>
    let head ← Step.ask (·.rootAt root)
    onHeap (Heap.writeSlot mutator object 0 head)
    setRoot root object

/-- The identity at a position in a row. -/
def idAt (first : Word) (position : Nat) : Except Fault Word := first.sum (UInt64.ofNat position)

/-- Allocates up to `count` more objects of a row, until there is no room for one. -/
def allocateMore (first : Newcomer) (links : Links) (row : Row) :
    Nat → Step Session (Except Refusal Row)
  | 0 => return .ok row
  | count + 1 => do
    let id ← Step.ask fun _ => idAt first.id row.count
    match ← allocate { first with id }, (← get).mutatorOf first.thread with
    | .error r, _ | _, .error r => return .error r
    | .ok none, _ => return .ok row
    | .ok (some object), .ok mutator =>
      let offset := offsetOf (← get).heap object
      link mutator links row.count object
      allocateMore first links ⟨row.count + 1, some object, Census.digest row.digest offset⟩ count

/-- Allocates a row of objects, with identities from that of the first one on, until there is no room. The
root that takes them over must be there before. -/
def allocateMany (first : Newcomer) (links : Links) (count : Word) :
    Step Session (Except Refusal Row) := do
  let roots := (← get).heap.program.roots.size
  if links.chain.any (roots ≤ ·.toNat) then return .error .noSuchRoot
  allocateMore first links ⟨0, none, 0⟩ count.toNat

/-- A thread with a number stores a reference into the first slot of the objects from a position on, one
after another. -/
def writeMany (thread first : Word) (target : Address) (position : Nat) :
    Nat → Step Session (Except Refusal Unit)
  | 0 => return .ok ()
  | count + 1 => do
    let id ← Step.ask fun _ => idAt first position
    match (← get).placeOf id, (← get).mutatorOf thread with
    | .error r, _ | _, .error r => return .error r
    | .ok object, .ok mutator =>
      onHeap (Heap.writeSlot mutator object 0 target)
      writeMany thread first target (position + 1) count

end Session

end TracingHeap

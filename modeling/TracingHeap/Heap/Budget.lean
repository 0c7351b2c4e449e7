import TracingHeap.Heap.Basic

/-!
The page budget: what the spaces have promised, what the next collection needs for copies, and when a
collection is due. A collection is due when promises and reserve exceed the heap, when a space is full,
or when the nursery has grown to its limit.
-/

namespace TracingHeap.Heap

/-- The pages that a space has promised. -/
def reservedBy (h : Heap) (id : SpaceId) : Word := (h.spaces.ledgerOf id).reserved

/-- The pages in use by all spaces; of two halves only the current one counts. -/
def pagesUsed (h : Heap) : Except Fault Word := do
  let objects ←
    match h.plan with
    | .generational => (h.reservedBy .first).sum (h.reservedBy .second)
    | .semispace => .ok (h.reservedBy h.current)
  objects.sum (← (h.reservedBy .immortal).sum (h.reservedBy .large))

/-- The pages held back for the next collection, which may have to copy every ordinary object. -/
def collectionReserve (h : Heap) : Word := h.reservedBy h.current

/-- The pages in use and held back. -/
def pagesReserved (h : Heap) : Except Fault Word := do (← h.pagesUsed).sum h.collectionReserve

/-- The pages of the heap. -/
def pagesTotal (h : Heap) : Except Fault Word := h.settings.heapSize.pagesUp

/-- The pages that may still be handed out before a collection; a half has to be left free. -/
def pagesAvailable (h : Heap) : Except Fault Word := do
  let left := (← h.pagesTotal).minusOrZero (← h.pagesReserved)
  return match h.plan with
    | .generational => left
    | .semispace => left >>> 1

/-- Are more pages reserved than the heap has? -/
def overBudget (h : Heap) : Except Fault Bool := do
  return (← h.pagesTotal) < (← h.pagesReserved)

/-- Are more pages reserved than the heap has? Not before collections were enabled. -/
def isFull (h : Heap) : Except Fault Bool := if h.armed then h.overBudget else .ok false

/-- Demands a collection, for a space or for none. -/
def demandCollection (space : Option SpaceId) (spaceFull byUser : Bool) : Step Heap Unit :=
  modify fun h => { h with demand := h.demand.request (space.map SpaceId.tag) spaceFull byUser }

/-- The next collection has to cover the whole heap. -/
def requireFull : Step Heap Unit := modify fun h => { h with scope.nextFull := true }

/-- Is a collection due? A full space other than the nursery makes the next one cover the whole heap. -/
def collectionDue (spaceFull : Bool) (space : Option SpaceId) : Step Heap Bool := do
  let h ← get
  match h.plan with
  | .generational =>
    if (← h.settings.maxNurseryPages) < h.reservedBy .first then return true
    if spaceFull && space != some .first then requireFull
  | .semispace => pure ()
  let exceeded ← Step.ask overBudget
  return spaceFull || exceeded

/-- Asks whether a collection is due, and if so demands it. Nothing is due before collections were
enabled, nor during one. -/
def poll (spaceFull : Bool) (space : Option SpaceId) : Step Heap Bool := do
  let h ← get
  if !h.armed || !h.demand.enabled then return false
  let due ← collectionDue spaceFull space
  if due then demandCollection space spaceFull false
  return due

/-- Says whether collections have failed to make room. -/
def setEmergency (on : Bool) : Step Heap Unit := modify fun h => { h with demand.emergency := on }

end TracingHeap.Heap

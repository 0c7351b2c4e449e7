import TracingHeap.Heap.Budget

/-!
Acquisition of memory: how an allocator gets zeroed pages or free cells out of a space. A request is
written down before it is tried, so that the decision whether a collection is due counts it.
-/

namespace TracingHeap.Heap

/-- Reports a shortage to the program, which may break off. -/
def report (shortage : Shortage) : Step Heap Unit := do
  modify fun h => { h with program.shortages := h.program.shortages.push shortage }
  Step.ensure (!(← get).program.breaksOff) (.outOfMemory shortage)

/-- Takes zeroed memory out of a space. Nothing is handed out if a collection is due first; if none can
help, the shortage has been reported. -/
def acquire (id : SpaceId) (bytes : Word) : Step Heap (Option Address) := do
  if ((← get).spaces.space id).extent.bytes < bytes then
    report .heap
    return none
  let pages ← bytes.pagesUp
  onSpaces (Spaces.onLedger id (Pages.Ledger.reserve pages))
  if ← poll false (some id) then
    onSpaces (Spaces.onLedger id (Pages.Ledger.withdraw pages))
    return none
  match ← onSpaces (Spaces.take id pages bytes) with
  | .ok start => return some start
  | .error .exhausted =>
    if ← poll true (some id) then return none
    report .heap
    return none
  | .error (.uncommitted _) =>
    report .commit
    return none

/-- Takes the free cells of one block of a size class, a fresh block if no other has any. -/
def acquireCells (sizeClass : Nat) : Step Heap (Option Address) := do
  match ← onMature (Step.on Focus.fst (MarkSweepSpace.takeAvailable sizeClass)) with
  | some head => return some head
  | none =>
    match ← acquire .second SizeClass.blockBytes with
    | none => return none
    | some start =>
      onMature (MarkSweepSpace.install start sizeClass)
      return some start

end TracingHeap.Heap

import TracingHeap.Collection.Crew

/-!
Collections: the threads of the program are stopped, the collectors go through the phases, and the threads
are resumed. A collection that breaks off leaves the heap stopped for good.
-/

namespace TracingHeap.Heap

/-- Carries out a collection with the heap's own collectors. -/
def runCollection (collectors : Array Collector) : Step Heap Unit := do
  let _ ← Step.ask pagesUsed
  modify fun h =>
    { h with
      demand.collecting := true
      program.stops := h.program.stops + 1
      collectors := none }
  let (collectors, ended) ← collectWith collectors
  modify fun h => { h with collectors := some collectors }
  match ended with
  | .error e => throw e
  | .ok () =>
    let full := (← get).lastFull
    modify fun h =>
      { h with
        tally := h.tally.finished full 0
        demand := { h.demand.met full with collecting := false }
        program.resumes := h.program.resumes + 1 }

/-- Carries out a collection if one is still wanted. Without collectors the demand is dropped. -/
def collect : Step Heap Unit := do
  let h ← get
  Step.ensure (!h.disabled) .poisonedLock
  if !h.demand.wanted then return
  match h.collectors with
  | none => modify fun h => { h with demand := h.demand.dropped }
  | some collectors => (runCollection collectors).onFault fun h => { h with disabled := true }

/-- The program asks for a collection; it gets none if the settings say so, or if none can run. -/
def requestCollection : Step Heap Unit := do
  let h ← get
  if h.settings.ignoreRequests || !h.demand.enabled then return
  demandCollection none false true
  collect

end TracingHeap.Heap

import TracingHeap.Collection.Phases
import TracingHeap.Collection.Rendezvous

/-!
Crews: the collectors that carry out one collection together. Every collector goes through the phases in
order and waits for the others after each. The steps of the collectors may be taken in any order;
`Crew.run` always takes the first collector that can take one. If a collector breaks off, the others do
so too when they next wait, and the first fault is the outcome.
-/

namespace TracingHeap

/-- What a collector of a crew is doing. -/
inductive Activity where
  /-- It is about to start its phase. -/
  | starting
  /-- It is working off its share of a closure. -/
  | closing (share : Share)
  /-- It has ended its phase and waits for the others. -/
  | waiting (turn : Turn)
  /-- It has gone through every phase. -/
  | finished
  /-- It has broken off. -/
  | brokenOff
  deriving Inhabited

/-- A collector of a crew. -/
structure Worker where
  collector : Collector
  /-- The phases it has not ended yet, the present one first. -/
  phases : List (Schedule × Phase)
  activity : Activity
  deriving Inhabited

/-- The collectors of one collection. -/
structure Crew where
  workers : Array Worker
  rendezvous : Rendezvous
  /-- The first fault. -/
  fault : Option Fault
  deriving Inhabited

namespace Worker

/-- Goes on to the next phase. -/
def advance (w : Worker) : Worker :=
  match w.phases with
  | _ :: phase :: phases => { w with phases := phase :: phases, activity := .starting }
  | _ => { w with phases := [], activity := .finished }

/-- What all parts of a collection share: the rendezvous and the heap. -/
abbrev Shared := Rendezvous × Heap

variable {α : Type}

/-- Runs a step of the collector on the heap. -/
def onCollector (step : Step (Collector × Heap) α) : Step (Worker × Shared) α :=
  Step.onBoth (Focus.fst.comp ⟨(·.collector), fun w c => { w with collector := c }⟩)
    (Focus.snd.comp Focus.snd) step

/-- Ends the present phase: arrives at the rendezvous. -/
def endPhase : Step (Worker × Shared) Unit := do
  let arrival ← Step.on (Focus.snd.comp Focus.fst) Rendezvous.arrive
  modify fun (w, s) =>
    (match arrival.waitFor with
      | some turn => { w with activity := .waiting turn }
      | none => w.advance, s)

/-- Starts the present phase, and ends it unless it is a closure. What is done once is done by the
first collector. -/
def startPhase (schedule : Schedule) (phase : Phase) : Step (Worker × Shared) Unit := do
  let primary := (← get).1.collector.isPrimary
  match schedule, phase with
  | .globally, phase =>
    if primary then Step.on (Focus.snd.comp Focus.snd) (Heap.globalPhase phase)
    endPhase
  | .mutators, phase =>
    if primary then Step.on (Focus.snd.comp Focus.snd) (Heap.mutatorPhase phase)
    endPhase
  | .collectors, .closure =>
    onCollector Collector.beginClosure
    modify fun (w, s) => ({ w with activity := .closing .new }, s)
  | .collectors, phase =>
    onCollector (Collector.phase phase)
    endPhase

/-- Takes a step. Answers false if the collector has to wait for another one, or has nothing to do. -/
def step : Step (Worker × Shared) Bool := do
  let (w, _) ← get
  match w.activity, w.phases with
  | .starting, (schedule, phase) :: _ =>
    startPhase schedule phase
    return true
  | .closing share, _ =>
    if share.isFinished then
      endPhase
      return true
    match ← onCollector share.step with
    | some share =>
      modify fun (w, s) => ({ w with activity := .closing share }, s)
      return true
    | none => return false
  | .waiting turn, _ =>
    if ← Step.on (Focus.snd.comp Focus.fst) (Rendezvous.mayPass turn) then
      modify fun (w, s) => (w.advance, s)
      return true
    return false
  | _, _ => return false

end Worker

namespace Crew

/-- A crew at the start of a collection. -/
def ofCollectors (collectors : Array Collector) : Crew where
  workers := collectors.map fun c => ⟨c, collectionPhases, .starting⟩
  rendezvous := .new collectors.size
  fault := none

/-- The collectors of a crew. -/
def collectors (c : Crew) : Array Collector := c.workers.map (·.collector)

/-- One worker as a part of the crew. -/
@[inline] def workerPart (index : Nat) : Focus Crew Worker where
  get c := c.workers[index]?.getD default
  set c w := { c with workers := c.workers.setIfInBounds index w }

/-- The rendezvous as a part of the crew. -/
@[inline] def rendezvousPart : Focus Crew Rendezvous :=
  ⟨(·.rendezvous), fun c r => { c with rendezvous := r }⟩

/-- A collector breaks off: the first fault is kept, and the others are told. -/
def breakOff (index : Nat) (fault : Fault) : Step (Crew × Heap) Unit := do
  Step.on (Focus.fst.comp (workerPart index)) (modify fun w => { w with activity := .brokenOff })
  modify fun (c, h) => ({ c with fault := c.fault.or (some fault) }, h)
  Step.on (Focus.fst.comp rendezvousPart) Rendezvous.abort
  Step.on (Focus.snd.comp (Heap.backlogPart.comp Work.Backlog.objectsPart)) Work.Packets.abort

/-- One collector takes a step. -/
def stepOf (index : Nat) : Step (Crew × Heap) Bool := fun (c, h) =>
  let w := (workerPart index).get c
  let c := (workerPart index).set c default
  let r := c.rendezvous
  match Worker.step (w, r, h) with
  | .ok b (w, r, h) => .ok b (rendezvousPart.set ((workerPart index).set c w) r, h)
  | .error e (w, r, h) =>
    (do breakOff index e; return true)
      (rendezvousPart.set ((workerPart index).set c w) r, h)

/-- The first collector that can take a step takes it. Answers false if none can. -/
def stepFirst : List Nat → Step (Crew × Heap) Bool
  | [] => return false
  | index :: rest => do
    if ← stepOf index then return true else stepFirst rest

/-- Takes steps until no collector can take one, at most `fuel` of them. -/
def run : Nat → Step (Crew × Heap) Unit
  | 0 => pure ()
  | fuel + 1 => do
    if ← stepFirst (List.range (← get).1.workers.size) then run fuel

/-- Has every collector gone through every phase or broken off? -/
def isOver (c : Crew) : Bool :=
  c.workers.all fun w =>
    match w.activity with
    | .finished | .brokenOff => true
    | _ => false

/-- How the collection ended. -/
def outcome (c : Crew) : Except Fault Unit :=
  match c.fault with
  | some e => .error e
  | none => if c.isOver then .ok () else .error .stalled

end Crew

namespace Heap

/-- Carries out a collection with the given collectors. Answers them, and how the collection ended. -/
def collectWith (collectors : Array Collector) :
    Step Heap (Array Collector × Except Fault Unit) := fun h =>
  match Crew.run Collector.enoughSteps (Crew.ofCollectors collectors, h) with
  | .ok () (c, h) => .ok (c.collectors, c.outcome) h
  | .error e (c, h) => .ok (c.collectors, .error e) h

end Heap

end TracingHeap

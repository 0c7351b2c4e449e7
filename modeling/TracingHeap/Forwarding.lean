import TracingHeap.SideTable

/-!
Forwarding tables: for every object of a copying space, whether a collector has claimed it and where its
copy is. A state goes from unclaimed to claimed to forwarded at most once in a collection. One collector
claims an object and copies it; the others wait until the copy is published.
-/

namespace TracingHeap

/-- The state of an object that no collector has claimed. -/
def ForwardingState.unclaimed : UInt8 := 0

/-- The state of an object whose copy is under way. -/
def ForwardingState.claimed : UInt8 := 2

/-- The state of an object whose copy is published. -/
def ForwardingState.forwarded : UInt8 := 3

/-- Is the object claimed or forwarded? -/
def ForwardingState.isTaken (state : UInt8) : Bool := state != unclaimed

/-- Is a copy of the object under way? -/
def ForwardingState.isClaimed (state : UInt8) : Bool := state == claimed

/-- The states of the objects of a range and the places of their copies. -/
structure Forwarding where
  states : SideTable
  copies : SideTable
  deriving Inhabited

namespace Forwarding

/-- A table for a range, in which nothing is claimed; an object takes at least one granule. -/
def create (start : Address) (bytes : Word) : Except Fault (Except Refusal Forwarding) := do
  match ← SideTable.create .byte start bytes 4 with
  | .error cause => return .error cause
  | .ok states =>
    match ← SideTable.create .word start bytes 4 with
    | .error cause => return .error cause
    | .ok copies => return .ok ⟨states, copies⟩

/-- The states as a part of the table. -/
@[inline] def statesPart : Focus Forwarding SideTable := ⟨(·.states), fun f t => { f with states := t }⟩

/-- The places of the copies as a part of the table. -/
@[inline] def copiesPart : Focus Forwarding SideTable := ⟨(·.copies), fun f t => { f with copies := t }⟩

/-- The state of an object. -/
def stateOf (f : Forwarding) (object : Address) : Except Fault UInt8 := f.states.loadByte object

/-- Is the copy of the object published? -/
def isForwarded (f : Forwarding) (object : Address) : Except Fault Bool :=
  (f.stateOf object).map (· == ForwardingState.forwarded)

/-- Claims an object that nobody has claimed. Answers the state before. -/
def claim (object : Address) : Step Forwarding UInt8 := do
  let state ← Step.ask (·.stateOf object)
  if state == ForwardingState.unclaimed then
    Step.on statesPart (SideTable.store object ForwardingState.claimed.toUInt64)
  return state

/-- The place of the copy of a forwarded object. -/
def copyOf (f : Forwarding) (object : Address) : Except Fault Address := do
  unless ← f.isForwarded object do throw (.notForwarded object)
  return ⟨← f.copies.load object⟩

/-- Publishes the copy of a claimed object: first its place, then the state. -/
def publish (object copy : Address) : Step Forwarding Unit := do
  let state ← Step.ask (·.stateOf object)
  Step.ensure (ForwardingState.isClaimed state) (.notClaimed object)
  Step.on copiesPart (SideTable.store object copy.word)
  Step.on statesPart (SideTable.store object ForwardingState.forwarded.toUInt64)

/-- What a collector finds that looks at an object claimed by another one: the place of the copy, or
nothing as long as the copy is under way. `state` is the state it saw before. -/
def look (f : Forwarding) (object : Address) (state : UInt8) : Except Fault (Option Address) := do
  let state ← if ForwardingState.isClaimed state then f.stateOf object else pure state
  if ForwardingState.isClaimed state then return none
  unless state == ForwardingState.forwarded do throw (.corruptForwarding state object)
  return some (← f.copyOf object)

/-- Forgets the objects in a range that was given back. -/
def clear (start : Address) (bytes : Word) : Step Forwarding Unit := do
  Step.on statesPart (SideTable.clear start bytes)
  Step.on copiesPart (SideTable.clear start bytes)

end Forwarding

end TracingHeap

import TracingHeap.Heap.Basic

/-!
Inquiries of the program: which space an object is in, whether it is live, whether it can move.
-/

namespace TracingHeap

/-- What a space itself has noted of an object, and the word for it. -/
def Space.note (object : Address) : Space → String × Except Fault Bool
  | .copying s => ("forwarded", s.forwarding.isForwarded object)
  | .markSweep s => ("marked", s.isMarked object)
  | space => ("live", space.isLive object)

namespace Heap

/-- Does the address lie in one of the spaces? -/
def inSpaces (h : Heap) (object : Address) : Bool := (h.spaces.holding? object).isSome

/-- Is the object live, as far as the last or present collection knows? A collection of young objects
alone says nothing about the mature store, where everything then counts as live. -/
def isLive (h : Heap) (object : Address) : Except Fault Bool :=
  match h.spaces.holding? object with
  | none => .error (.notInAnySpace object)
  | some id =>
    match h.spaces.space id with
    | .markSweep s => if h.nurseryOnly then .ok true else s.isMarked object
    | space => space.isLive object

/-- Is the object in a space whose objects never move? -/
def neverMoves (h : Heap) (object : Address) : Except Fault Bool :=
  match h.spaces.holding? object with
  | none => .error (.notInAnySpace object)
  | some id => .ok !(h.spaces.space id).isMovable

/-- Will the object stay where it is for the rest of the collection? -/
def willNotMove (h : Heap) (object : Address) : Except Fault Bool :=
  match h.spaces.holding? object with
  | none => .ok true
  | some id => (h.spaces.space id).willNotMove object

end Heap

end TracingHeap

import TracingHeap.Step

/-!
Rendezvous: a point that nobody passes before everyone has arrived. Two counters of arrivals are used in
turn, so that those who have not left one rendezvous yet are not confused by the next. Once someone has
broken off, nobody passes any more.
-/

namespace TracingHeap

/-- Which of the two counters. -/
abbrev Turn := Bool

/-- A rendezvous that is passed again and again. -/
structure Rendezvous where
  /-- How many have to arrive. -/
  parties : Nat
  /-- Arrivals in the turns `false` and `true`. -/
  evens : Nat
  odds : Nat
  /-- The turn that arrivals count in. -/
  current : Turn
  /-- Has someone broken off? -/
  aborted : Bool
  deriving DecidableEq, Inhabited

namespace Rendezvous

/-- A rendezvous where nobody has arrived. -/
def new (parties : Nat) : Rendezvous := ⟨parties, 0, 0, false, false⟩

/-- The arrivals in a turn. -/
def arrivals (r : Rendezvous) : Turn → Nat
  | false => r.evens
  | true => r.odds

/-- Replaces the arrivals in a turn. -/
def setArrivals (r : Rendezvous) (turn : Turn) (count : Nat) : Rendezvous :=
  match turn with
  | false => { r with evens := count }
  | true => { r with odds := count }

/-- What one who arrives is told. -/
structure Arrival where
  /-- How many had arrived before. -/
  order : Nat
  /-- The turn to wait for, unless everyone is there. -/
  waitFor : Option Turn
  deriving DecidableEq

/-- Arrives. The last one to do so starts the next turn. -/
def arrive : Step Rendezvous Arrival := do
  let r ← get
  if r.aborted then throw .collectionAborted
  let order := r.arrivals r.current
  set (r.setArrivals r.current (order + 1))
  if order + 1 = r.parties then
    modify fun r => { r.setArrivals (!r.current) 0 with current := !r.current }
    return ⟨order, none⟩
  return ⟨order, some r.current⟩

/-- Looks whether one who waits may pass. -/
def mayPass (turn : Turn) : Step Rendezvous Bool := do
  let r ← get
  if r.aborted then throw .collectionAborted
  return r.parties ≤ r.arrivals turn

/-- Tells everyone that someone broke off. -/
def abort : Step Rendezvous Unit := modify fun r => { r with aborted := true }

end Rendezvous

end TracingHeap

import TracingHeap.Layout

/-!
Regions: what every space has besides its pages. A space is prepared once and released once in each
collection that covers it.
-/

namespace TracingHeap

/-- The name and the habits of a space. -/
structure Region where
  name : String
  /-- Does the heap have a write barrier? Then new objects of a space that keeps its objects start with
  the unlogged bit. -/
  logged : Bool
  /-- Was the space prepared for a collection and not released yet? -/
  prepared : Bool
  deriving DecidableEq, Inhabited

namespace Region

/-- A space outside of collections. -/
def new (name : String) (logged : Bool) : Region := ⟨name, logged, false⟩

/-- Enters a collection. -/
def enter : Step Region Unit := do
  let r ← get
  set { r with prepared := true }
  Step.ensure (!r.prepared) (.preparedTwice r.name)

/-- Leaves a collection. -/
def leave : Step Region Unit := do
  let r ← get
  set { r with prepared := false }
  Step.ensure r.prepared (.notPrepared r.name)

/-- The tables beside a space, or the error of a space that could not get them. -/
def orFailed {α : Type} (name : String) (table : Except Refusal α) : Except Layout.Error α :=
  table.mapError fun cause => .reservationFailed name cause

end Region

end TracingHeap

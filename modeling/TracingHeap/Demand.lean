import TracingHeap.SpaceTag
import TracingHeap.Word

/-!
Demand for collections: whether one is wanted, why, and whether one may run. The first demand since the
last collection decides which space counts as its cause.
-/

namespace TracingHeap

/-- The state of the demand for collections. -/
structure Demand where
  /-- Were collections enabled? -/
  started : Bool
  /-- Is a collection under way? -/
  collecting : Bool
  /-- Is a collection wanted? -/
  wanted : Bool
  /-- Did the program ask for it? -/
  byUser : Bool
  /-- Have collections failed to make room? -/
  emergency : Bool
  /-- The space that asked first. -/
  cause : SpaceTag
  /-- Was that space full? -/
  spaceFull : Bool
  /-- Collections so far. -/
  count : Word
  /-- Did the last one cover the whole heap? -/
  lastFull : Bool
  deriving DecidableEq, Inhabited

namespace Demand

/-- Nothing is wanted, and collections are not enabled. -/
def initial : Demand := ⟨false, false, false, false, false, .none, false, 0, false⟩

/-- May a collection run? -/
def enabled (d : Demand) : Bool := d.started && !d.collecting

/-- Asks for a collection. -/
def request (d : Demand) (cause : Option SpaceTag) (spaceFull byUser : Bool) : Demand :=
  let d := if d.wanted then d else { d with wanted := true, cause := cause.getD .none, spaceFull }
  if byUser then { d with byUser := true } else d

/-- The space that asked first, if one did. -/
def causeOf (d : Demand) : Option SpaceTag := SpaceTag.ofNumber? d.cause.number

/-- A collection was finished, and every demand is met. -/
def met (d : Demand) (full : Bool) : Demand :=
  { d with
    lastFull := full
    cause := .none
    spaceFull := false
    byUser := false
    emergency := false
    count := d.count + 1
    wanted := false }

/-- The demand is dropped without a collection. -/
def dropped (d : Demand) : Demand := { d with cause := .none, byUser := false, wanted := false }

end Demand

end TracingHeap

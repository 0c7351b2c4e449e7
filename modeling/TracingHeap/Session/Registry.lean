import Std.Data.HashMap
import TracingHeap.Census

/-!
Registries: where the objects of a program are, by identity. After a collection the census tells where
the survivors are; an object that was not found is lost, and only its last place is known.
-/

namespace TracingHeap

/-- What is known of an object. -/
structure Whereabouts where
  place : Address
  lost : Bool
  deriving DecidableEq, Inhabited

/-- The objects of a program by identity. -/
structure Registry where
  entries : Std.HashMap Word Whereabouts
  deriving Inhabited

namespace Registry

/-- A registry without objects. -/
def empty : Registry := ⟨∅⟩

/-- What is known of an object. -/
def find? (r : Registry) (id : Word) : Option Whereabouts := r.entries[id]?

/-- Enters the place of an object. -/
def enter (r : Registry) (id : Word) (place : Address) : Registry :=
  ⟨r.entries.insert id ⟨place, false⟩⟩

/-- Counts the objects as lost whose places meet the condition. -/
def lose (r : Registry) (at? : Address → Bool) : Registry :=
  ⟨r.entries.map fun _ w => if at? w.place then { w with lost := true } else w⟩

/-- Enters what the census finds, and counts all other objects as lost. -/
def survey (r : Registry) (h : Heap) : Registry :=
  (Census.objects h).foldl (fun r o => r.enter (h.idOf o) o) (r.lose fun _ => true)

end Registry

end TracingHeap

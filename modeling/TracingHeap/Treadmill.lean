import Std.Data.TreeSet
import TracingHeap.Step

/-!
Treadmills: the objects of the large object space, on four lists. New objects wait on one list. When a
collection starts, the lists turn: what it has to prove live moves to the collected lists, and tracing
moves live objects on to the list of survivors. What stays on the collected lists is dead.
-/

namespace TracingHeap

/-- The lists of large objects. -/
structure Treadmill where
  /-- Old objects that a collection of the whole heap has not reached yet. -/
  old : Std.TreeSet Address
  /-- Objects that survived, or were copied into the space. -/
  survivors : Std.TreeSet Address
  /-- Young objects that a collection has not reached yet. -/
  young : Std.TreeSet Address
  /-- Objects allocated since the last collection. -/
  fresh : Std.TreeSet Address
  deriving Inhabited

namespace Treadmill

/-- A treadmill without objects. -/
def empty : Treadmill := ⟨∅, ∅, ∅, ∅⟩

/-- Adds an object that a mutator allocated, or one that a collector copied. -/
def add (t : Treadmill) (object : Address) (allocated : Bool) : Treadmill :=
  if allocated then { t with fresh := t.fresh.insert object }
  else { t with survivors := t.survivors.insert object }

/-- Moves an object that was reached from the collected list it is on to the survivors. -/
def save (object : Address) (isYoung : Bool) : Step Treadmill Unit := do
  let t ← get
  if isYoung then
    Step.ensure (t.young.contains object) (.notOnCollectedList object)
    set { t with young := t.young.erase object, survivors := t.survivors.insert object }
  else
    Step.ensure (t.old.contains object) (.notOnCollectedList object)
    set { t with old := t.old.erase object, survivors := t.survivors.insert object }

/-- Takes the young objects that were not reached, in the order of their addresses. -/
def takeYoung (t : Treadmill) : List Address × Treadmill := (t.young.toList, { t with young := ∅ })

/-- Takes the old objects that were not reached, in the order of their addresses. -/
def takeOld (t : Treadmill) : List Address × Treadmill := (t.old.toList, { t with old := ∅ })

/-- Turns the lists at the start of a collection; one of the whole heap collects the survivors too. -/
def turn (t : Treadmill) (full : Bool) : Treadmill :=
  let t := { t with young := t.fresh, fresh := ∅ }
  if full then { t with old := t.survivors, survivors := ∅ } else t

/-- The number of objects on the lists. -/
def size (t : Treadmill) : Nat := t.old.size + t.survivors.size + t.young.size + t.fresh.size

end Treadmill

end TracingHeap

import TracingHeap.Work.Packets

/-!
Backlogs: the work of one collection. Root slots and remembered objects are taken first in, first out;
the objects still to be scanned are shared through a packet queue. Remembered objects stay across
collections until one takes them.
-/

namespace TracingHeap.Work

/-- The work of a collection: slots `σ` that hold roots, and objects `α`. -/
structure Backlog (σ α : Type) where
  /-- Packets of root slots, the oldest first. -/
  roots : List (Array σ)
  /-- Packets of objects that were written to, the oldest first. -/
  remembered : List (Array α)
  /-- Objects still to be scanned. -/
  objects : Packets α
  deriving Inhabited

namespace Backlog

variable {σ α : Type}

/-- A backlog without work. -/
def empty : Backlog σ α := ⟨[], [], .empty⟩

/-- The shared queue as a part of the backlog. -/
@[inline] def objectsPart : Focus (Backlog σ α) (Packets α) :=
  ⟨(·.objects), fun b q => { b with objects := q }⟩

/-- Starts a collection for a number of collectors; root slots left over are dropped. -/
def prepare (participants : Word) : Step (Backlog σ α) Unit := do
  Step.on objectsPart (Packets.reset participants)
  modify fun b => { b with roots := [] }

/-- Ends a collection, in which nothing may be left to do. -/
def release : Step (Backlog σ α) Unit := do
  let done ← Step.on objectsPart Packets.isEmpty
  Step.ensure (done && (← get).roots.isEmpty) .workLeftOver

/-- Adds a packet of root slots; an empty one is left out. -/
def pushRoots (slots : Array σ) : Step (Backlog σ α) Unit :=
  unless slots.isEmpty do modify fun b => { b with roots := b.roots ++ [slots] }

/-- Takes the oldest packet of root slots. -/
def popRoots : Step (Backlog σ α) (Option (Array σ)) := do
  match (← get).roots with
  | [] => return none
  | slots :: rest =>
    modify fun b => { b with roots := rest }
    return some slots

/-- Adds a packet of remembered objects; an empty one is left out. -/
def pushRemembered (objects : Array α) : Step (Backlog σ α) Unit :=
  unless objects.isEmpty do modify fun b => { b with remembered := b.remembered ++ [objects] }

/-- Takes the oldest packet of remembered objects. -/
def popRemembered : Step (Backlog σ α) (Option (Array α)) := do
  match (← get).remembered with
  | [] => return none
  | objects :: rest =>
    modify fun b => { b with remembered := rest }
    return some objects

/-- Are there remembered objects? -/
def hasRemembered (b : Backlog σ α) : Bool := !b.remembered.isEmpty

end Backlog

end TracingHeap.Work

/-!
The vocabulary of requests: what an allocation is for, what a copy is for, why memory could not be
had, and which stage of a collection a collector has reached.
-/

namespace TracingHeap

/-- What an allocation is for. -/
inductive AllocSemantics where
  /-- The nursery of a generational heap, or the half that is in use. -/
  | ordinary
  /-- Never reclaimed. -/
  | immortal
  /-- Alone on a run of pages, and never moved. -/
  | large
  /-- The mature store, or the ordinary place in a heap that has none. -/
  | mature
  deriving DecidableEq

/-- The purpose that a word stands for. -/
def AllocSemantics.ofName? : String → Option AllocSemantics
  | "default" => some .ordinary
  | "immortal" => some .immortal
  | "los" => some .large
  | "mature" => some .mature
  | _ => none

/-- What a copy made by a collector is for. -/
inductive CopySemantics where
  | ordinary
  /-- Promotion out of the nursery. -/
  | mature
  /-- A copy too big for the regular destinations. -/
  | large
  deriving DecidableEq

/-- The purpose of a copy that takes the place of an allocation; none does where nothing is reclaimed. -/
def CopySemantics.ofAlloc? : AllocSemantics → Option CopySemantics
  | .ordinary => some .ordinary
  | .mature => some .mature
  | .large => some .large
  | .immortal => none

/-- The name of a copy's purpose in messages. -/
def CopySemantics.name : CopySemantics → String
  | .ordinary => "DefaultCopy"
  | .mature => "Mature"
  | .large => "Los"

/-- Why memory could not be had for good. -/
inductive Shortage where
  /-- Collections freed too little, or one request exceeds its space. -/
  | heap
  /-- The system refused to back the pages. -/
  | commit
  deriving DecidableEq

/-- The name of a shortage in messages. -/
def Shortage.name : Shortage → String
  | .heap => "HeapOutOfMemory"
  | .commit => "MmapOutOfMemory"

/-- Where a collector stands in its cycle: unused, prepared, tracing, released, and prepared again. -/
inductive TraceState where
  | unused
  | prepared
  | closing
  | released
  deriving DecidableEq, Inhabited

/-- The name of a stage in messages. -/
def TraceState.name : TraceState → String
  | .unused => "Unused"
  | .prepared => "Prepare"
  | .closing => "Closure"
  | .released => "Release"

/-- Who carries out a phase of a collection. -/
inductive Schedule where
  /-- Once, on the thread that drives the collection. -/
  | globally
  /-- Once for each mutator. -/
  | mutators
  /-- Once on every collector. -/
  | collectors
  deriving DecidableEq

/-- The name of a schedule. -/
def Schedule.name : Schedule → String
  | .globally => "Global"
  | .mutators => "Mutator"
  | .collectors => "Collector"

/-- What is done in a phase of a collection. -/
inductive Phase where
  | prepare
  | roots
  | closure
  | release
  deriving DecidableEq

/-- The name of a phase. -/
def Phase.name : Phase → String
  | .prepare => "Prepare"
  | .roots => "Roots"
  | .closure => "Closure"
  | .release => "Release"

/-- Every phase. -/
def Phase.all : List Phase := [prepare, roots, closure, release]

/-- The phase that a word in small letters stands for. -/
def Phase.ofName? (text : String) : Option Phase := all.find? (·.name.toLower == text)

/-- The phases of a collection in order; every collector waits for the others after each. -/
def collectionPhases : List (Schedule × Phase) :=
  [(.globally, .prepare), (.mutators, .prepare), (.collectors, .prepare), (.collectors, .roots),
    (.collectors, .closure), (.collectors, .release), (.mutators, .release), (.globally, .release)]

end TracingHeap

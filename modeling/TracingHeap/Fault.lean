import TracingHeap.Address
import TracingHeap.Semantics

/-!
Faults: the ways in which an operation breaks off. A fault is a cause with the values that identify
it; `Fault.message` is the only place that puts it into words. The state an operation had reached when
it broke off is kept, see `Step`.
-/

namespace TracingHeap

/-- The reason why an operation broke off. -/
inductive Fault where
  /-- A sum does not fit in a word. -/
  | addOverflow
  /-- A difference is negative. -/
  | subtractOverflow
  /-- A product does not fit in a word. -/
  | multiplyOverflow
  /-- A shift by at least the width of a word. -/
  | shiftLeftOverflow
  | shiftRightOverflow
  /-- An index at or past the end of a sequence. -/
  | indexOutOfBounds (size index : Nat)
  /-- A lock whose holder broke off. -/
  | poisonedLock
  /-- The distance was asked from a higher to a lower address. -/
  | misorderedAddresses (upper lower : Address)
  /-- An alignment beyond the largest that objects may ask for. -/
  | alignmentTooLarge (alignment : Word)
  | alignmentNotPowerOfTwo
  | offsetNotAligned
  /-- More pages are withdrawn than were promised. -/
  | overWithdrawn (pages reserved : Word)
  /-- More pages are released than are promised or committed. -/
  | overReleased
  /-- A request to a frontier that is no multiple of the least object size. -/
  | unalignedRequest (bytes : Word)
  /-- No live run of pages starts at the address. -/
  | pagesNotLive (start : Address)
  | outsideTable (place start stop : Address)
  | slotOutOfRange (slot : Word)
  /-- An object was saved that the collection does not hold on its list. -/
  | notOnCollectedList (object : Address)
  | corruptForwarding (state : UInt8) (object : Address)
  | notForwarded (object : Address)
  | notClaimed (object : Address)
  | pushAfterDrain
  | workAborted
  /-- The backlog of a collection still holds work when it is released. -/
  | workLeftOver
  | preparedTwice (space : String)
  | notPrepared (space : String)
  | copiedIntoImmortal (space : String)
  | notInBlock (space : String) (object : Address)
  | noSizeClass (space : String) (bytes : Word)
  | notMarkSweep (space : String)
  | notLargeObject (space : String)
  | notCopying (space : String)
  /-- A space was named for no allocator. -/
  | nothingToBind (space : String)
  /-- Allocators of one kind must be bound in the order of their indices. -/
  | bindingOrder (index bound : Nat)
  | noAllocatorSelected
  /-- A space was named for no copy allocator. -/
  | nothingToCopyWith
  | noRoomToCopy (space : String) (object : Address) (bytes : Word) (semantics : CopySemantics)
  | outsideCopyDestinations (object : Address)
  | notInAnySpace (object : Address)
  | notAllocatedHere (object : Address)
  | prepareOutOfTurn (collector : Nat) (state : TraceState)
  | rootsOutOfTurn (collector : Nat) (state : TraceState)
  | closureOutOfTurn (collector : Nat) (state : TraceState)
  | releaseOutOfTurn (collector : Nat) (state : TraceState)
  | tracingOutOfTurn (collector : Nat) (object : Address) (state : TraceState)
  /-- A collector is released while its buffer holds objects. -/
  | releasedWithWork
  | noGlobalPhase (phase : Phase)
  | noMutatorPhase (phase : Phase)
  | emptyGroup
  | collectionAborted
  | collectorsBoundTwice
  | startedTwice
  /-- The hook for exhausted memory does not return. -/
  | outOfMemory (shortage : Shortage)
  | unknownMutator (thread : Address)
  | objectTooSmall (bytes slots : Word)
  | allocationFailed (id : Word)
  | slotIndexTooLarge
  /-- No collector can take a step although work is left. -/
  | stalled
  deriving DecidableEq

namespace Fault

/-- The wording of a failed comparison of two values that had to be equal. -/
def unequal (note left right : String) : String :=
  "assertion `left == right` failed" ++ note ++ "\n  left: " ++ left ++ "\n right: " ++ right

/-- The wording of a condition that did not hold. -/
def unmet (condition : String) : String := "assertion failed: " ++ condition

/-- How a thread handle reads in messages. -/
def threadText (name : Address → String) (thread : Address) : String :=
  "VMMutatorThread(VMThread(OpaquePointer(" ++ name thread ++ ")))"

/-- Binary digits after `0b`. -/
def binary (value : UInt8) : String := "0b" ++ String.ofList (Nat.toDigits 2 value.toNat)

/-- A fault in words; `name` says how addresses are written. -/
def message (name : Address → String) : Fault → String
  | addOverflow => "attempt to add with overflow"
  | subtractOverflow => "attempt to subtract with overflow"
  | multiplyOverflow => "attempt to multiply with overflow"
  | shiftLeftOverflow => "attempt to shift left with overflow"
  | shiftRightOverflow => "attempt to shift right with overflow"
  | indexOutOfBounds size index =>
    "index out of bounds: the len is " ++ toString size ++ " but the index is " ++ toString index
  | poisonedLock => "called `Result::unwrap()` on an `Err` value: PoisonError \x7b .. \x7d"
  | misorderedAddresses a b =>
    "for (addr_a - addr_b), a(" ++ name a ++ ") needs to be larger than b(" ++ name b ++ ")"
  | alignmentTooLarge alignment => "alignment " ++ toString alignment ++ " too large"
  | alignmentNotPowerOfTwo => unmet "alignment.is_power_of_two()"
  | offsetNotAligned => unmet "offset % VM::MIN_ALIGNMENT == 0"
  | overWithdrawn pages reserved =>
    "clearing " ++ toString pages ++ " of " ++ toString reserved ++ " reserved pages"
  | overReleased => unmet "old_reserved >= pages && old_committed >= pages"
  | unalignedRequest bytes => "unaligned request of " ++ toString bytes ++ " bytes"
  | pagesNotLive start => "releasing pages at " ++ name start ++ " that are not allocated"
  | outsideTable place start stop =>
    name place ++ " is outside the side table for [" ++ name start ++ ", " ++ name stop ++ ")"
  | slotOutOfRange slot => "side table slot " ++ toString slot ++ " out of range"
  | notOnCollectedList object => name object ++ " is not on the list being collected"
  | corruptForwarding state object =>
    unequal (": corrupt forwarding state " ++ binary state ++ " for " ++ name object)
      (toString state) "3"
  | notForwarded object => name object ++ " is not forwarded"
  | notClaimed object => name object ++ " was not claimed before forwarding"
  | pushAfterDrain => "pushing work into a drained queue"
  | workAborted => "work queue aborted"
  | workLeftOver => "trace released with pending work"
  | preparedTwice space => space ++ ": prepared twice in one collection"
  | notPrepared space => space ++ ": released twice, or released without being prepared"
  | copiedIntoImmortal space => space ++ ": objects are never copied into an immortal space"
  | notInBlock space object => space ++ ": " ++ name object ++ " is not in a block"
  | noSizeClass space bytes =>
    space ++ ": " ++ toString bytes ++ " bytes is larger than the largest size class"
  | notMarkSweep space => space ++ " is not a mark-sweep space"
  | notLargeObject space => space ++ " is not a large object space"
  | notCopying space => space ++ " is not a copying space"
  | nothingToBind space => "no allocator to bind to " ++ space
  | bindingOrder index bound => unequal "" (toString index) (toString bound)
  | noAllocatorSelected => "allocation with AllocatorSelector::None"
  | nothingToCopyWith => "internal error: entered unreachable code"
  | noRoomToCopy space object bytes semantics =>
    space ++ ": no room to copy " ++ name object ++ " (" ++ toString bytes ++ " bytes, " ++
      semantics.name ++ ")"
  | outsideCopyDestinations object => "copy " ++ name object ++ " is not in any copy destination"
  | notInAnySpace object => name object ++ " is not in any space"
  | notAllocatedHere object => name object ++ " was not allocated by this mutator"
  | prepareOutOfTurn collector state =>
    "collector " ++ toString collector ++ ": prepare in state " ++ state.name
  | rootsOutOfTurn collector state =>
    unequal (": collector " ++ toString collector ++ ": roots outside of prepare") state.name
      TraceState.prepared.name
  | closureOutOfTurn collector state =>
    "collector " ++ toString collector ++ ": closure in state " ++ state.name
  | releaseOutOfTurn collector state =>
    unequal (": collector " ++ toString collector ++ ": release without a closure") state.name
      TraceState.closing.name
  | tracingOutOfTurn collector object state =>
    "collector " ++ toString collector ++ ": tracing " ++ name object ++ " in state " ++ state.name
  | releasedWithWork => unmet "self.values.is_empty()"
  | noGlobalPhase phase => "no global " ++ phase.name ++ " phase"
  | noMutatorPhase phase => "no mutator " ++ phase.name ++ " phase"
  | emptyGroup => "a collector group needs at least one collector"
  | collectionAborted => "collection aborted"
  | collectorsBoundTwice => "collectors initialized twice"
  | startedTwice =>
    "MMTk collection has been initialized (was initialize_collection() already called before?)"
  | outOfMemory shortage => "Out of memory with " ++ shortage.name ++ "!"
  | unknownMutator thread => threadText name thread ++ " is not a registered mutator"
  | objectTooSmall bytes slots =>
    toString bytes ++ " bytes cannot hold " ++ toString slots ++ " slots"
  | allocationFailed id => "failed to allocate object " ++ toString id
  | slotIndexTooLarge => unmet "index < nrefs(object)"
  | stalled => "no collector can take a step"

end Fault

end TracingHeap

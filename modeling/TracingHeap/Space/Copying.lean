import TracingHeap.Forwarding
import TracingHeap.Object.Access
import TracingHeap.Pages.Frontier
import TracingHeap.Space.Region

/-!
Copying spaces. Objects are allocated from the bottom up. In a collection that evacuates the space every
live object is claimed in the forwarding table and copied elsewhere; then the whole space is emptied.
-/

namespace TracingHeap

/-- A space that is emptied by copying its live objects out. -/
structure CopySpace where
  region : Region
  pages : Pages.Frontier
  forwarding : Forwarding
  /-- Are live objects copied out of the space at present? -/
  evacuating : Bool
  /-- Objects copied out so far. -/
  copied : Word
  deriving Inhabited

namespace CopySpace

/-- The region as a part of the space. -/
@[inline] def regionPart : Focus CopySpace Region := ⟨(·.region), fun s r => { s with region := r }⟩

/-- The source of memory as a part of the space. -/
@[inline] def pagesPart : Focus CopySpace Pages.Frontier := ⟨(·.pages), fun s p => { s with pages := p }⟩

/-- The forwarding table as a part of the space. -/
@[inline] def forwardingPart : Focus CopySpace Forwarding :=
  ⟨(·.forwarding), fun s f => { s with forwarding := f }⟩

/-- Lays out a copying space. -/
def create (name : String) (request : Layout.Request) (logged evacuating : Bool) :
    Step Layout (Except Layout.Error CopySpace) := do
  match ← Layout.reserve name request with
  | .error e => return .error e
  | .ok extent =>
    let forwarding ← Forwarding.create extent.start extent.bytes
    return (Region.orFailed name forwarding).map fun forwarding =>
      ⟨.new name logged, .new extent, forwarding, evacuating, 0⟩

/-- Is the object live, as far as the last or present collection knows? -/
def isLive (s : CopySpace) (object : Address) : Except Fault Bool :=
  if s.evacuating then s.forwarding.isForwarded object else .ok (decide (object < s.pages.cursor))

/-- Will the object stay where it is for the rest of the collection? -/
def willNotMove (s : CopySpace) (object : Address) : Except Fault Bool :=
  if s.evacuating then s.forwarding.isForwarded object else .ok true

/-- The collector's byte of a new object or copy in the space; the barrier does not watch it. -/
def freshMark (s : CopySpace) : Object.Mark := .fresh s.pages.extent.tag false

/-- Starts a collection that evacuates the space or copies into it. -/
def prepare (evacuate : Bool) : Step CopySpace Unit := do
  if evacuate then Step.on regionPart Region.enter
  modify fun s => { s with evacuating := evacuate }

/-- Empties the space. -/
def release : Step (CopySpace × Memory) Unit := do
  Step.on (Focus.fst.comp regionPart) Region.leave
  let (start, used) ← Step.onBoth (Focus.fst.comp pagesPart) Focus.snd Pages.Frontier.reset
  Step.on (Focus.fst.comp forwardingPart) (Forwarding.clear start used)
  modify fun (s, m) => ({ s with evacuating := false }, m)

end CopySpace

end TracingHeap

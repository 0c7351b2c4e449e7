import TracingHeap.Object.Access
import TracingHeap.Pages.Frontier
import TracingHeap.SideTable
import TracingHeap.Space.Region

/-!
Immortal spaces. Nothing in them is ever reclaimed, but objects are marked in a collection of the whole
heap so that what they refer to is found. The mark changes its meaning with every such collection.
-/

namespace TracingHeap

/-- A space whose objects stay for good. -/
structure ImmortalSpace where
  region : Region
  pages : Pages.Frontier
  /-- The mark of every granule. -/
  marks : SideTable
  /-- The value that marks an object at present. -/
  current : UInt8
  deriving Inhabited

namespace ImmortalSpace

/-- The region as a part of the space. -/
@[inline] def regionPart : Focus ImmortalSpace Region := ⟨(·.region), fun s r => { s with region := r }⟩

/-- The source of memory as a part of the space. -/
@[inline] def pagesPart : Focus ImmortalSpace Pages.Frontier :=
  ⟨(·.pages), fun s p => { s with pages := p }⟩

/-- The marks as a part of the space. -/
@[inline] def marksPart : Focus ImmortalSpace SideTable := ⟨(·.marks), fun s t => { s with marks := t }⟩

/-- Lays out an immortal space. -/
def create (name : String) (request : Layout.Request) (logged : Bool) :
    Step Layout (Except Layout.Error ImmortalSpace) := do
  match ← Layout.reserve name request with
  | .error e => return .error e
  | .ok extent =>
    let marks ← SideTable.create .byte extent.start extent.bytes 4
    return (Region.orFailed name marks).map fun marks => ⟨.new name logged, .new extent, marks, 0⟩

/-- The collector's byte of a new object. -/
def freshMark (s : ImmortalSpace) : Object.Mark := .fresh s.pages.extent.tag s.region.logged

/-- Takes over a new object: it counts as marked. -/
def adopt (object : Address) : Step (ImmortalSpace × Memory) Unit := do
  let (s, _) ← get
  Step.on (Focus.fst.comp marksPart) (SideTable.store object s.current.toUInt64)
  modify fun (s, m) => (s, m.setMark object s.freshMark)

/-- Starts a collection of the whole heap, with no object marked. -/
def prepare : Step ImmortalSpace Unit := do
  Step.on regionPart Region.enter
  modify fun s => { s with current := 1 - s.current }

/-- Ends a collection of the whole heap. -/
def release : Step ImmortalSpace Unit := Step.on regionPart Region.leave

/-- Marks an object. Answers whether it was not marked before. -/
def claim (object : Address) : Step ImmortalSpace Bool := do
  let s ← get
  let before ← s.marks.loadByte object
  Step.on marksPart (SideTable.store object s.current.toUInt64)
  return before != s.current

end ImmortalSpace

end TracingHeap

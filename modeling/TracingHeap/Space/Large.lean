import TracingHeap.Object.Access
import TracingHeap.Pages.Runs
import TracingHeap.SideTable
import TracingHeap.Space.Region
import TracingHeap.Treadmill

/-!
Large object spaces. Every object has a run of pages to itself and is never moved. Objects allocated
since the last collection are traced and reclaimed in every collection, older ones only in a collection
of the whole heap.
-/

namespace TracingHeap

/-- A space of objects that have pages to themselves. -/
structure LargeSpace where
  region : Region
  pages : Pages.Runs
  /-- The mark of every page; an object uses that of its first one. -/
  marks : SideTable
  /-- The value that marks an object at present, zero or one. -/
  current : UInt8
  /-- Does the present or last collection leave old objects alone? -/
  youngOnly : Bool
  treadmill : Treadmill
  deriving Inhabited

namespace LargeSpace

/-- The bits of a mark. -/
def markMask : UInt8 := 3

/-- The bit of a mark that says whether the object was reached. -/
def reachedBit : UInt8 := 1

/-- The bit of a mark of an object allocated since the last collection. -/
def youngBit : UInt8 := 2

/-- The region as a part of the space. -/
@[inline] def regionPart : Focus LargeSpace Region := ⟨(·.region), fun s r => { s with region := r }⟩

/-- The source of memory as a part of the space. -/
@[inline] def pagesPart : Focus LargeSpace Pages.Runs := ⟨(·.pages), fun s p => { s with pages := p }⟩

/-- The marks as a part of the space. -/
@[inline] def marksPart : Focus LargeSpace SideTable := ⟨(·.marks), fun s t => { s with marks := t }⟩

/-- The treadmill as a part of the space. -/
@[inline] def treadmillPart : Focus LargeSpace Treadmill :=
  ⟨(·.treadmill), fun s t => { s with treadmill := t }⟩

/-- Lays out a large object space. -/
def create (name : String) (request : Layout.Request) (logged : Bool) :
    Step Layout (Except Layout.Error LargeSpace) := do
  match ← Layout.reserve name request with
  | .error e => return .error e
  | .ok extent =>
    let marks ← SideTable.create .byte extent.start extent.bytes Word.logPage
    return (Region.orFailed name marks).map fun marks =>
      ⟨.new name logged, .new extent, marks, 0, false, .empty⟩

/-- Is the object live, as far as the last or present collection knows? -/
def isLive (s : LargeSpace) (object : Address) : Except Fault Bool :=
  (s.marks.loadByte object).map fun mark => mark &&& markMask == s.current

/-- The collector's byte of a new object or copy. -/
def freshMark (s : LargeSpace) : Object.Mark := .fresh s.pages.extent.tag s.region.logged

/-- Takes over an object that a mutator allocated, or one that a collector copied. -/
def adopt (object : Address) (allocated : Bool) : Step (LargeSpace × Memory) Unit := do
  let (s, _) ← get
  let mark := if allocated then s.current ||| youngBit else s.current
  Step.on (Focus.fst.comp marksPart) (SideTable.store object mark.toUInt64)
  modify fun (s, m) =>
    ({ s with treadmill := s.treadmill.add object allocated }, m.setMark object s.freshMark)

/-- Starts a collection. -/
def prepare (full : Bool) : Step LargeSpace Unit := do
  Step.on regionPart Region.enter
  modify fun s =>
    { s with
      current := if full then reachedBit - s.current else s.current
      treadmill := s.treadmill.turn full
      youngOnly := !full }

/-- Gives the pages of a dead object back. -/
def reclaim (object : Address) : Step (LargeSpace × Memory) Unit := do
  let start := object.alignDown Word.pageBytes
  let pages ← Step.onBoth (Focus.fst.comp pagesPart) Focus.snd (Pages.Runs.release start)
  Step.on (Focus.fst.comp marksPart) (SideTable.clear start (Word.ofPages pages))

/-- Ends a collection: what was not reached is reclaimed. -/
def release (full : Bool) : Step (LargeSpace × Memory) Unit := do
  Step.on (Focus.fst.comp regionPart) Region.leave
  let young ← Step.on (Focus.fst.comp treadmillPart) (modifyGet Treadmill.takeYoung)
  young.forM reclaim
  if full then
    let old ← Step.on (Focus.fst.comp treadmillPart) (modifyGet Treadmill.takeOld)
    old.forM reclaim

/-- Was the object allocated since the last collection, and not reached yet? -/
def isYoung (s : LargeSpace) (object : Address) : Except Fault Bool :=
  (s.marks.loadByte object).map fun mark => mark &&& youngBit == youngBit

/-- Marks an object as an old one that was reached. Answers whether it was not marked before. -/
def mark (object : Address) (value : UInt8) : Step LargeSpace Bool := do
  let s ← get
  let before ← s.marks.loadByte object
  let mask := if s.youngOnly then markMask else reachedBit
  if before &&& mask == value then return false
  Step.on marksPart (SideTable.store object ((before &&& ~~~markMask) ||| value).toUInt64)
  return true

/-- Claims an object for scanning, if the collection covers it. Answers whether it was won; an object
that was won also moves to the survivors, after `record` noted that it was marked. -/
def claim (object : Address) : Step LargeSpace (Option Bool) := do
  let s ← get
  let young ← s.isYoung object
  if s.youngOnly && !young then return none
  if ← mark object s.current then return some young else return none

end LargeSpace

end TracingHeap

import TracingHeap.Object.Access
import TracingHeap.Pages.Runs
import TracingHeap.SideTable
import TracingHeap.SizeClass
import TracingHeap.Space.Region

/-!
Mark-sweep spaces. Blocks are cut into cells of one size class. Every cell has a mark at its start, and a
cell is live after a collection of the whole heap if its mark has the current value. The sweep clears the
marks of all other cells, threads them onto the free list of their block in the order of their addresses,
and gives blocks without a live cell back.
-/

namespace TracingHeap

/-- A row of cells of one size class. -/
structure Block where
  start : Address
  /-- The index of the size class. -/
  sizeClass : Nat
  deriving DecidableEq, Inhabited

/-- A space of cells that are reclaimed where they are. -/
structure MarkSweepSpace where
  region : Region
  pages : Pages.Runs
  /-- The mark of every granule; an object uses that of its cell's start. -/
  marks : SideTable
  /-- For every page the start of its block, or zero. -/
  blockStarts : SideTable
  /-- For every page the size class of its block. -/
  blockClasses : SideTable
  /-- The value that marks a cell at present, one or two. -/
  current : UInt8
  /-- For every size class the free lists of blocks that no allocator has, the last one on top. -/
  available : Array (List Address)
  /-- The blocks, in the order in which they were taken. -/
  blocks : List Block
  /-- Did someone break off inside the lists? -/
  poisoned : Bool
  deriving Inhabited

namespace MarkSweepSpace

/-- The region as a part of the space. -/
@[inline] def regionPart : Focus MarkSweepSpace Region := ⟨(·.region), fun s r => { s with region := r }⟩

/-- The source of memory as a part of the space. -/
@[inline] def pagesPart : Focus MarkSweepSpace Pages.Runs :=
  ⟨(·.pages), fun s p => { s with pages := p }⟩

/-- The marks as a part of the space. -/
@[inline] def marksPart : Focus MarkSweepSpace SideTable := ⟨(·.marks), fun s t => { s with marks := t }⟩

/-- The starts of blocks as a part of the space. -/
@[inline] def blockStartsPart : Focus MarkSweepSpace SideTable :=
  ⟨(·.blockStarts), fun s t => { s with blockStarts := t }⟩

/-- The classes of blocks as a part of the space. -/
@[inline] def blockClassesPart : Focus MarkSweepSpace SideTable :=
  ⟨(·.blockClasses), fun s t => { s with blockClasses := t }⟩

/-- Lays out a mark-sweep space. -/
def create (name : String) (request : Layout.Request) (logged : Bool) :
    Step Layout (Except Layout.Error MarkSweepSpace) := do
  match ← Layout.reserve name request with
  | .error e => return .error e
  | .ok extent =>
    match Region.orFailed name (← SideTable.create .byte extent.start extent.bytes 4) with
    | .error e => return .error e
    | .ok marks =>
      match Region.orFailed name
          (← SideTable.create .word extent.start extent.bytes Word.logPage) with
      | .error e => return .error e
      | .ok blockStarts =>
        let blockClasses ← SideTable.create .byte extent.start extent.bytes Word.logPage
        return (Region.orFailed name blockClasses).map fun blockClasses =>
          ⟨.new name logged, .new extent, marks, blockStarts, blockClasses, 1,
            Array.replicate SizeClass.sizes.size [], [], false⟩

/-- The size of the cells of a class. -/
def cellSize (sizeClass : Nat) : Except Fault Word :=
  match SizeClass.sizeOf? sizeClass with
  | some size => .ok size
  | none => .error (.indexOutOfBounds SizeClass.sizes.size sizeClass)

/-- The start of the cell that an object lies in. -/
def cellOf (s : MarkSweepSpace) (object : Address) : Except Fault Address := do
  let block ← s.blockStarts.load object
  if block = 0 then throw (.notInBlock s.region.name object)
  let size ← cellSize (← s.blockClasses.load object).toNat
  let inside ← object.distance ⟨block⟩
  return ⟨block + inside / size * size⟩

/-- Is the object marked, as far as the last or present collection knows? -/
def isMarked (s : MarkSweepSpace) (object : Address) : Except Fault Bool := do
  return (← s.marks.loadByte (← s.cellOf object)) == s.current

/-- The collector's byte of a new object or copy. -/
def freshMark (s : MarkSweepSpace) : Object.Mark := .fresh s.pages.extent.tag s.region.logged

/-- Takes over a copy: it counts as marked. -/
def adoptCopy (object : Address) : Step (MarkSweepSpace × Memory) Unit := do
  let (s, _) ← get
  let cell ← s.cellOf object
  Step.on (Focus.fst.comp marksPart) (SideTable.store cell s.current.toUInt64)
  modify fun (s, m) => (s, m.setMark object s.freshMark)

/-- Marks an object. Answers whether it was not marked before. -/
def claim (object : Address) : Step MarkSweepSpace Bool := do
  let s ← get
  let cell ← s.cellOf object
  if (← s.marks.loadByte cell) == s.current then return false
  Step.on marksPart (SideTable.store cell s.current.toUInt64)
  return true

/-- Enters the lists, unless someone broke off inside them. -/
def enterLists : Step MarkSweepSpace Unit := do
  Step.ensure (!(← get).poisoned) .poisonedLock

/-- Takes the free list of a block that no allocator has. -/
def takeAvailable (sizeClass : Nat) : Step MarkSweepSpace (Option Address) := do
  enterLists
  let s ← get
  match s.available[sizeClass]? with
  | none =>
    set { s with poisoned := true }
    throw (.indexOutOfBounds s.available.size sizeClass)
  | some [] => return none
  | some (head :: rest) =>
    set { s with available := s.available.setIfInBounds sizeClass rest }
    return some head

/-- Threads the first `count` cells of a block, each onto the next one. -/
def linkCells (m : Memory) (cell : Address) (size : Word) : Nat → Memory
  | 0 => m
  | count + 1 => linkCells (m.store cell (cell.word + size)) (cell.plus size) size count

/-- Enters a block into the tables of its pages, from page `page` on. -/
def mapPages (start : Address) (sizeClass : Nat) : List Nat → Step MarkSweepSpace Unit
  | [] => pure ()
  | page :: rest => do
    let place := start.plus (Word.ofPages (UInt64.ofNat page))
    Step.on blockStartsPart (SideTable.store place start.word)
    Step.on blockClassesPart (SideTable.store place (UInt64.ofNat sizeClass))
    mapPages start sizeClass rest

/-- Cuts fresh zeroed pages into cells of a class. The last cell ends the free list, for it is zero. -/
def install (start : Address) (sizeClass : Nat) : Step (MarkSweepSpace × Memory) Unit := do
  let size ← cellSize sizeClass
  modify fun (s, m) => (s, linkCells m start size (SizeClass.cells size - 1))
  Step.on Focus.fst (mapPages start sizeClass (List.range SizeClass.blockPages))
  Step.on Focus.fst enterLists
  modify fun (s, m) => ({ s with blocks := s.blocks ++ [⟨start, sizeClass⟩] }, m)

/-- Starts a collection of the whole heap, with no cell marked. -/
def prepare : Step MarkSweepSpace Unit := do
  Step.on regionPart Region.enter
  modify fun s => { s with current := 3 - s.current }

/-- Sweeps the first `count` cells of a block from the last one down. `head` is the free list so far and
`live` the number of live cells. -/
def sweepCells (start : Address) (size : Word) (head : Address) (live : Nat) :
    Nat → Step (MarkSweepSpace × Memory) (Address × Nat)
  | 0 => return (head, live)
  | count + 1 => do
    let cell := start.plus (UInt64.ofNat count * size)
    let (s, _) ← get
    if (← s.marks.loadByte cell) == s.current then sweepCells start size head (live + 1) count
    else
      Step.on (Focus.fst.comp marksPart) (SideTable.store cell 0)
      modify fun (s, m) => (s, m.store cell head.word)
      sweepCells start size cell live count

/-- Gives a block without live cells back. -/
def discard (start : Address) : Step (MarkSweepSpace × Memory) Unit := do
  Step.on (Focus.fst.comp marksPart) (SideTable.clear start SizeClass.blockBytes)
  Step.on (Focus.fst.comp blockStartsPart) (SideTable.clear start SizeClass.blockBytes)
  Step.on (Focus.fst.comp blockClassesPart) (SideTable.clear start SizeClass.blockBytes)
  let _ ← Step.onBoth (Focus.fst.comp pagesPart) Focus.snd (Pages.Runs.release start)

/-- Sweeps one block. Answers whether it is kept. -/
def sweepBlock (block : Block) : Step (MarkSweepSpace × Memory) Bool := do
  let size ← cellSize block.sizeClass
  let (head, live) ← sweepCells block.start size .null 0 (SizeClass.cells size)
  if live = 0 then
    discard block.start
    return false
  unless head.isNull do
    modify fun (s, m) =>
      ({ s with available := s.available.modify block.sizeClass (head :: ·) }, m)
  return true

/-- Ends a collection of the whole heap: every block is swept. No allocator may have free cells. -/
def release : Step (MarkSweepSpace × Memory) Unit := do
  Step.on (Focus.fst.comp regionPart) Region.leave
  Step.on Focus.fst enterLists
  let (s, _) ← get
  let blocks := s.blocks
  modify fun (s, m) =>
    ({ s with available := Array.replicate s.available.size [], blocks := [] }, m)
  let kept ← (blocks.filterM sweepBlock).onFault fun (s, m) => ({ s with poisoned := true }, m)
  modify fun (s, m) => ({ s with blocks := kept }, m)

/-- The number of blocks. -/
def blockCount (s : MarkSweepSpace) : Except Fault Nat :=
  if s.poisoned then .error .poisonedLock else .ok s.blocks.length

end MarkSweepSpace

end TracingHeap

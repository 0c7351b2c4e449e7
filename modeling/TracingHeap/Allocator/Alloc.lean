import TracingHeap.Allocator.Basic
import TracingHeap.Heap.Acquire
import TracingHeap.Padding

/-!
Allocation: how an allocator serves a request of `bytes` so that the place, moved by `offset`, is a
multiple of `align`. It takes memory out of its space when its own does not do. No memory is the answer
if the space has none, see `Heap.acquire`.
-/

namespace TracingHeap

/-- A request for memory. -/
structure Request where
  bytes : Word
  align : Word
  offset : Word
  deriving DecidableEq, Inhabited

namespace Request

/-- The bytes that the request takes at most. -/
def room (r : Request) : Except Fault Word :=
  Padding.maxAlignedSize (Padding.allocationSize r.bytes) r.align

/-- Requests that take more than this have pages to themselves. -/
def sharedLimit : Word := 8192

/-- Does the request have pages to itself? The limit is compared with the bytes asked for, before they
are rounded up. -/
def isLarge (r : Request) : Except Fault Bool := do
  return sharedLimit < (← Padding.maxAlignedSize r.bytes r.align)

end Request

namespace BumpAllocator

/-- Serves a request out of the memory at hand, if there is enough. -/
def carve (r : Request) : Step (BumpAllocator × Memory) (Option Address) := do
  let (b, _) ← get
  let start ← Padding.alignedStart b.cursor r.align r.offset
  let stop ← start.above (Padding.allocationSize r.bytes)
  if b.cursor.isNull || b.limit < stop then return none
  modify fun (b, m) => ({ b with cursor := stop }, Padding.fillGap m b.cursor start)
  return some start

/-- Takes new memory, at least as much as the settings say. -/
def refill (r : Request) : Step (BumpAllocator × Heap) Bool := do
  let room ← r.room
  let (b, h) ← get
  let chunk := (max room h.settings.bumpChunkSize).alignUp Padding.minObjectBytes
  match ← Step.on Focus.snd (Heap.acquire b.space chunk) with
  | none => return false
  | some start =>
    modify fun (b, h) => ({ b with cursor := start }, h)
    let limit ← start.above chunk
    modify fun (b, h) => ({ b with limit }, h)
    return true

/-- Carves with the memory of the heap. -/
def carveInHeap (r : Request) : Step (BumpAllocator × Heap) (Option Address) :=
  Step.onBoth Focus.fst (Focus.snd.comp Heap.memoryPart) (carve r)

/-- Serves a request out of new memory. -/
def allocFresh (r : Request) : Step (BumpAllocator × Heap) (Option Address) := do
  if ← refill r then carveInHeap r else return none

/-- Serves a request. -/
def alloc (r : Request) : Step (BumpAllocator × Heap) (Option Address) := do
  match ← carveInHeap r with
  | some start => return some start
  | none => allocFresh r

end BumpAllocator

namespace CellAllocator

/-- The size class that a request takes a cell of. -/
def classOf (h : Heap) (r : Request) : Except Fault Nat := do
  let room ← r.room
  match SizeClass.classFor? room with
  | some sizeClass => return sizeClass
  | none => throw (.noSizeClass (h.spaces.nameOf .second) room)

/-- The first free cell of a class. -/
def head (c : CellAllocator) (sizeClass : Nat) : Address := c.heads[sizeClass]?.getD .null

/-- Takes the first free cell of a class, makes it zero and aligns the request inside it. -/
def pop (r : Request) (sizeClass : Nat) : Step (CellAllocator × Memory) Address := do
  let (c, m) ← get
  let cell := c.head sizeClass
  let next : Address := ⟨m.load cell⟩
  modify fun (c, m) =>
    (⟨c.heads.setIfInBounds sizeClass next⟩,
      m.zero cell ((SizeClass.sizeOf? sizeClass).getD 0))
  Step.on Focus.snd (Padding.align cell r.align r.offset)

/-- Pops with the memory of the heap. -/
def popInHeap (r : Request) (sizeClass : Nat) : Step (CellAllocator × Heap) Address :=
  Step.onBoth Focus.fst (Focus.snd.comp Heap.memoryPart) (pop r sizeClass)

/-- Serves a request out of new cells. -/
def allocFresh (r : Request) : Step (CellAllocator × Heap) (Option Address) := do
  let sizeClass ← classOf (← get).2 r
  match ← Step.on Focus.snd (Heap.acquireCells sizeClass) with
  | none => return none
  | some head =>
    modify fun (c, h) => (⟨c.heads.setIfInBounds sizeClass head⟩, h)
    return some (← popInHeap r sizeClass)

/-- Serves a request. -/
def alloc (r : Request) : Step (CellAllocator × Heap) (Option Address) := do
  let (c, h) ← get
  let sizeClass ← classOf h r
  if (c.head sizeClass).isNull then allocFresh r else return some (← popInHeap r sizeClass)

end CellAllocator

namespace LargeAllocator

/-- Takes pages for a request; where in them it is aligned is left open. -/
def allocFresh (r : Request) : Step Heap (Option Address) := do
  let pages ← (← r.room).pagesUp
  Heap.acquire .large (Word.ofPages pages)

/-- Serves a request. -/
def alloc (r : Request) : Step Heap (Option Address) := do
  match ← allocFresh r with
  | none => return none
  | some cell => return some (← Step.on Heap.memoryPart (Padding.align cell r.align r.offset))

end LargeAllocator

namespace AllocatorSet

/-- One bump allocator as a part of the set. -/
@[inline] def bumpPart (index : Nat) : Focus AllocatorSet BumpAllocator where
  get s := s.bumps[index]?.getD default
  set s b := { s with bumps := s.bumps.setIfInBounds index b }

/-- One cell allocator as a part of the set. -/
@[inline] def cellsPart (index : Nat) : Focus AllocatorSet CellAllocator where
  get s := s.cells[index]?.getD default
  set s c := { s with cells := s.cells.setIfInBounds index c }

/-- Serves a request with one of the allocators. -/
def alloc (selector : AllocatorSelector) (r : Request) :
    Step (AllocatorSet × Heap) (Option Address) := do
  let _ ← Step.ask fun (s, _) => s.spaceOf selector
  match selector with
  | .bump index =>
    Step.onBoth (Focus.fst.comp (bumpPart index.toNat)) Focus.snd (BumpAllocator.alloc r)
  | .cells index =>
    Step.onBoth (Focus.fst.comp (cellsPart index.toNat)) Focus.snd (CellAllocator.alloc r)
  | .large _ => Step.on Focus.snd (LargeAllocator.alloc r)
  | .none => Step.fail .noAllocatorSelected

end AllocatorSet

end TracingHeap

import TracingHeap.SizeClass
import TracingHeap.Spaces

/-!
Allocators: the memory that one thread has taken out of the spaces and not handed on yet. A thread has
bump allocators, cell allocators and large object allocators, each bound to a space and known by its kind
and its number.
-/

namespace TracingHeap

/-- A row of fresh memory that is handed out from the bottom. -/
structure BumpAllocator where
  space : SpaceId
  /-- Where the next request starts, or null without memory. -/
  cursor : Address
  limit : Address
  deriving DecidableEq, Inhabited

namespace BumpAllocator

/-- An allocator without memory. -/
def new (space : SpaceId) : BumpAllocator := ⟨space, .null, .null⟩

/-- Drops the memory left. -/
def reset (b : BumpAllocator) : BumpAllocator := new b.space

/-- Drops the memory left and moves to another space. -/
def rebind (_ : BumpAllocator) (space : SpaceId) : BumpAllocator := new space

end BumpAllocator

/-- For every size class the free cells of one block of the mature store. -/
structure CellAllocator where
  /-- The first free cell of every class, or null; each free cell holds the next one. -/
  heads : Array Address
  deriving DecidableEq, Inhabited

namespace CellAllocator

/-- An allocator without cells. -/
def new : CellAllocator := ⟨Array.replicate SizeClass.sizes.size .null⟩

end CellAllocator

/-- The allocator that serves a request: its kind, and its number among those of the kind. -/
inductive AllocatorSelector where
  | bump (index : UInt8)
  | cells (index : UInt8)
  | large (index : UInt8)
  | none
  deriving DecidableEq, Inhabited

/-- The allocators of one thread. Those of large objects keep nothing, so they are only counted. -/
structure AllocatorSet where
  bumps : Array BumpAllocator
  cells : Array CellAllocator
  larges : Nat
  deriving DecidableEq, Inhabited

namespace AllocatorSet

/-- No allocators. -/
def empty : AllocatorSet := ⟨#[], #[], 0⟩

/-- The next allocator of a kind has the number of those bound before. -/
def checkOrder (index : UInt8) (bound : Nat) : Except Fault Unit :=
  if index.toNat = bound then .ok () else .error (.bindingOrder index.toNat bound)

/-- Binds one more allocator; `unbound` is the fault of a space that is named for none. -/
def bindOne (spaces : Spaces) (unbound : Fault) (s : AllocatorSet) (selector : AllocatorSelector)
    (id : SpaceId) : Except Fault AllocatorSet := do
  let space := spaces.space id
  match selector with
  | .bump index =>
    checkOrder index s.bumps.size
    return { s with bumps := s.bumps.push (.new id) }
  | .cells index =>
    checkOrder index s.cells.size
    match space with
    | .markSweep _ => return { s with cells := s.cells.push .new }
    | _ => throw (.notMarkSweep space.region.name)
  | .large index =>
    checkOrder index s.larges
    match space with
    | .large _ => return { s with larges := s.larges + 1 }
    | _ => throw (.notLargeObject space.region.name)
  | .none => throw unbound

/-- Binds an allocator for every entry. -/
def bind (spaces : Spaces) (unbound : SpaceId → Fault) (entries : List (AllocatorSelector × SpaceId)) :
    Except Fault AllocatorSet :=
  entries.foldlM (fun s (selector, id) => bindOne spaces (unbound id) s selector id) empty

/-- The spaces of the allocators: bump, cell and then large object allocators. -/
def spaces (s : AllocatorSet) : List SpaceId :=
  s.bumps.toList.map (·.space) ++ List.replicate s.cells.size .second ++
    List.replicate s.larges .large

/-- The space of an allocator. -/
def spaceOf (s : AllocatorSet) : AllocatorSelector → Except Fault SpaceId
  | .bump index =>
    match s.bumps[index.toNat]? with
    | some b => .ok b.space
    | none => .error (.indexOutOfBounds s.bumps.size index.toNat)
  | .cells index =>
    if index.toNat < s.cells.size then .ok .second
    else .error (.indexOutOfBounds s.cells.size index.toNat)
  | .large index =>
    if index.toNat < s.larges then .ok .large
    else .error (.indexOutOfBounds s.larges index.toNat)
  | .none => .error .noAllocatorSelected

/-- Does an allocator keep memory between requests? -/
def keepsMemory : AllocatorSelector → Bool
  | .large _ => false
  | _ => true

/-- Moves a bump allocator to another space. -/
def rebindBump (s : AllocatorSet) (index : Nat) (space : SpaceId) : AllocatorSet :=
  { s with bumps := s.bumps.modify index (·.rebind space) }

/-- Drops the free cells of every cell allocator; a sweep finds them again. -/
def resetCells (s : AllocatorSet) : AllocatorSet := { s with cells := s.cells.map fun _ => .new }

/-- Drops all memory. -/
def reset (s : AllocatorSet) : AllocatorSet :=
  { s.resetCells with bumps := s.bumps.map BumpAllocator.reset }

end AllocatorSet

end TracingHeap

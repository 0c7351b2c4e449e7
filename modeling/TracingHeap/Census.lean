import Std.Data.HashSet
import TracingHeap.Heap.References
import TracingHeap.Object.Create

/-!
The census of a heap: the objects that are reached from the roots, in breadth-first order, and what there
is to say about each. Objects carry an identity in the first word of their payload. References that lead
nowhere are passed over.
-/

namespace TracingHeap

namespace Heap

/-- Can there be an object at the address? Not outside of the spaces, nor where a copying space has not
handed memory out. -/
def isReadable (h : Heap) (object : Address) : Bool :=
  match h.spaces.holding? object with
  | none => false
  | some id =>
    match h.spaces.space id with
    | .copying s => object.word - s.pages.extent.start.word < s.pages.used
    | _ => true

/-- The identity of an object. -/
def idOf (h : Heap) (object : Address) : Word := h.memory.loadAny (h.payloadOf object)

/-- The references of an object, in order. -/
def refsOf (h : Heap) (object : Address) : List Address := (h.memory.slotsOf object).map h.refOf

end Heap

namespace Census

/-- The objects found so far, with a set of the same objects. -/
structure Found where
  order : Array Address
  seen : Std.HashSet Address

/-- Adds an object, unless it is there or cannot be read. -/
def Found.add (h : Heap) (f : Found) (object : Address) : Found :=
  if h.isReadable object && !f.seen.contains object then
    ⟨f.order.push object, f.seen.insert object⟩
  else f

/-- Adds what the objects from number `next` on refer to, at most `fuel` of them. -/
def explore (h : Heap) (f : Found) (next : Nat) : Nat → Found
  | 0 => f
  | fuel + 1 =>
    match f.order[next]? with
    | none => f
    | some object => explore h ((h.refsOf object).foldl (Found.add h) f) (next + 1) fuel

/-- The objects that are reached from the roots, in breadth-first order. -/
def objects (h : Heap) : Array Address :=
  (explore h (h.program.roots.foldl (Found.add h) ⟨#[], ∅⟩) 0 Collector.enoughSteps).order

/-- What a reference leads to. -/
inductive Target where
  | nothing
  | object (id : Word)
  /-- Somewhere where no object can be. -/
  | nowhere
  deriving DecidableEq

/-- What a reference leads to. -/
def targetOf (h : Heap) (object : Address) : Target :=
  if object.isNull then .nothing
  else if h.isReadable object then .object (h.idOf object)
  else .nowhere

/-- What there is to say about an object. -/
structure Entry where
  id : Word
  place : Address
  size : Word
  mark : Object.Mark
  /-- Does its last byte still belong to its identity, if it has a byte to spare? -/
  intact : Bool
  slots : List Target

/-- The size of an object with one word of payload. -/
def sizeWithId (slots : Word) : Word := 8 + 8 * (slots + 1)

/-- What there is to say about an object. -/
def entry (h : Heap) (object : Address) : Entry :=
  let header := h.memory.header object
  let id := h.idOf object
  let size := header.size.toUInt64
  { id, size
    place := object
    mark := header.mark
    intact := size ≤ sizeWithId header.slots.toUInt64 ||
      h.memory.loadByte (object.plus (size - 1)) == id.toUInt8
    slots := (h.refsOf object).map (targetOf h) }

/-- One more part of a digest. -/
def digest (sum part : Nat) : Nat := (sum * 31 + part) % 1000000007

/-- The objects that are reached from the roots, in figures. -/
structure Summary where
  objects : Nat
  bytes : Nat
  /-- References that are not null. -/
  edges : Nat
  digest : Nat
  /-- Objects of each space. -/
  spread : List (SpaceId × Nat)

/-- The census in figures. -/
def summary (h : Heap) : Summary :=
  let objects := objects h
  { objects := objects.size
    bytes := objects.foldl (fun sum o => sum + (h.memory.header o).size.toNat) 0
    edges := objects.foldl (fun sum o => sum + ((h.refsOf o).filter (!·.isNull)).length) 0
    digest := objects.foldl (fun sum o => digest sum (h.idOf o).toNat) 0
    spread := SpaceId.all.filterMap fun id =>
      let count := objects.foldl
        (fun n o => if h.spaces.holding? o = some id then n + 1 else n) 0
      if count = 0 then none else some (id, count) }

end Census

end TracingHeap

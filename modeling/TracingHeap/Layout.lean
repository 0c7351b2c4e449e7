import TracingHeap.Checked
import TracingHeap.Layout.Request
import TracingHeap.Layout.System
import TracingHeap.SpaceTag

/-!
The layout of a heap: which addresses belong to which space. Every space has an extent of its own, made
of whole pages inside a reservation of whole chunks. Reservations are placed downward from a ceiling
with one free chunk between neighbours, so the address just past an extent lies in no space.
-/

namespace TracingHeap

/-- The addresses of one space. -/
structure Extent where
  tag : SpaceTag
  start : Address
  /-- The number of bytes, whole pages. -/
  bytes : Word
  deriving DecidableEq, Inhabited

namespace Extent

/-- The first address past the extent, if it fits in a word. -/
def stop (e : Extent) : Except Fault Address := e.start.above e.bytes

/-- Does the extent hold the address? -/
def holds (e : Extent) (a : Address) : Bool :=
  e.start ≤ a && a.word - e.start.word < e.bytes

/-- Does the extent hold the address? The question breaks off if the extent has no end. -/
def contains (e : Extent) (a : Address) : Except Fault Bool :=
  if e.start ≤ a then (e.stop).map fun stop => decide (a < stop) else .ok false

/-- Do the extents share an address? The question breaks off at an extent that has no end. -/
def overlaps (e f : Extent) : Except Fault Bool := do
  if (← f.stop) ≤ e.start then return false
  return decide (f.start < (← e.stop))

/-- The farthest that an address below an extent is written by its distance. -/
def vicinity : Word := 1048576

/-- How an address near the extent is written: by its distance from the start. -/
def placeText (e : Extent) (a : Address) : String :=
  let above := a.word - e.start.word
  if e.start ≤ a && above ≤ e.bytes then "space+0x" ++ above.hex
  else if a < e.start && 0 - above ≤ vicinity then "space-0x" ++ (0 - above).hex
  else a.text

end Extent

namespace Layout

/-- Why a space could not be laid out. -/
inductive Error where
  /-- The request is empty, or its fraction is out of range. -/
  | invalidRequest (space : String) (request : Request)
  /-- The bounded spaces together ask for more than the heap. -/
  | heapTooSmall (space : String) (requested heap : Word)
  | tooManySpaces (space : String)
  /-- The system refused address space or the tables beside it. -/
  | reservationFailed (space : String) (cause : Refusal)
  deriving DecidableEq

namespace Error

/-- The name of the kind of an error. -/
def kind : Error → String
  | invalidRequest .. => "InvalidRequest"
  | heapTooSmall .. => "HeapTooSmall"
  | tooManySpaces .. => "TooManySpaces"
  | reservationFailed .. => "ReservationFailed"

/-- An error in words. -/
def message : Error → String
  | invalidRequest space request => space ++ ": invalid virtual memory request " ++ request.text
  | heapTooSmall space requested heap =>
    space ++ ": bounded spaces need " ++ toString requested ++ " bytes, but the heap is only " ++
      toString heap ++ " bytes"
  | tooManySpaces space => space ++ ": more than " ++ toString maxSpaces ++ " spaces"
  | reservationFailed space cause =>
    space ++ ": failed to reserve address space: " ++ cause.message

/-- The system's refusal behind an error, if there is one. -/
def cause? : Error → Option Refusal
  | reservationFailed _ cause => some cause
  | _ => none

end Error

end Layout

/-- The extents of the spaces of one heap. -/
structure Layout where
  /-- Bytes of the heap. -/
  heapBytes : Word
  /-- Bytes asked for so far by spaces with a bound of their own. -/
  boundedBytes : Word
  /-- Where the last reservation starts. -/
  floor : Address
  /-- The spaces with their names, in the order in which they were laid out. -/
  spaces : Array (String × Extent)
  deriving Inhabited

namespace Layout

/-- Reservations lie below this address. -/
def ceiling : Address := ⟨0x7f0000000000⟩

/-- No reservation reaches this many bytes. -/
def reservationLimit : Word := 0x800000000000

/-- A layout without spaces. -/
def empty (heapBytes : Word) : Layout := ⟨heapBytes, 0, ceiling, #[]⟩

/-- The system of a layout whose reservations lie one below the other. As more is reserved than a space needs, its
neighbour below does not touch it. -/
def system (l : Layout) : System where
  map bytes := if reservationLimit ≤ bytes ∨ l.floor.word < bytes then .error .noMemory else .ok ⟨l.floor.word - bytes⟩
  unmap _ _ := .ok ()

/-- Lays out one more space in address space that comes from a system. -/
def reserveFrom (system : System) (name : String) (request : Request) : Step Layout (Except Error Extent) := do
  let l ← get
  if l.spaces.size = maxSpaces then return .error (.tooManySpaces name)
  match request.extentIn l.heapBytes with
  | none => return .error (.invalidRequest name request)
  | some bytes =>
    unless request.isUnbounded do
      let requested ← l.boundedBytes.sum bytes
      if l.heapBytes < requested then return .error (.heapTooSmall name requested l.heapBytes)
      modify fun l => { l with boundedBytes := requested }
    match ← system.reserve (bytes.alignUp Word.chunkBytes) Word.chunkBytes with
    | .error cause => return .error (.reservationFailed name cause)
    | .ok start =>
      let extent : Extent := ⟨⟨UInt8.ofNat (l.spaces.size + 1)⟩, start, bytes⟩
      modify fun l => { l with floor := start, spaces := l.spaces.push (name, extent) }
      return .ok extent

/-- Lays out one more space. -/
def reserve (name : String) (request : Request) : Step Layout (Except Error Extent) := do
  reserveFrom (← get).system name request

/-- The extent of a single space that takes a whole heap. -/
def single (name : String) (bytes : Word) : Except Fault (Except Error Extent) :=
  match reserve name (.bytes bytes) (.empty bytes) with
  | .ok r _ => .ok r
  | .error e _ => .error e

/-- The tag of the space that holds the address. The question breaks off at an extent that has no end. -/
def tagOf (l : Layout) (a : Address) : Except Fault (Option SpaceTag) := do
  let found ← l.spaces.toList.findM? fun (_, extent) => extent.contains a
  return found.map fun (_, extent) => extent.tag

/-- The entry of a tag. -/
def entry? (l : Layout) (tag : SpaceTag) : Option (String × Extent) :=
  if tag.isNone then none else l.spaces[tag.number.toNat - 1]?

/-- The extent of a tag. -/
def extentOf? (l : Layout) (tag : SpaceTag) : Option Extent := (l.entry? tag).map (·.2)

/-- The name of a tag. -/
def nameOf? (l : Layout) (tag : SpaceTag) : Option String := (l.entry? tag).map (·.1)

end Layout

end TracingHeap

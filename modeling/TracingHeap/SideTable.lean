import TracingHeap.Checked
import TracingHeap.Layout

/-!
Side tables: one small value for every granule of a range of addresses, kept beside the range so that
objects are not touched. A table covers the granules that fit in its range, and at least one.
-/

namespace TracingHeap

/-- How large the values of a side table are. -/
inductive EntryWidth where
  | byte
  | word
  deriving DecidableEq, Inhabited

namespace EntryWidth

/-- The size of a value in bytes. -/
def bytes : EntryWidth → Word
  | byte => 1
  | word => 8

/-- The part of a word that an entry can hold. -/
def truncate : EntryWidth → Word → Word
  | byte, value => value &&& 255
  | word, value => value

end EntryWidth

/-- A value for every granule of a range. -/
structure SideTable where
  /-- The first address of the range. -/
  start : Address
  /-- The size of the range. -/
  covered : Word
  /-- A granule has `2 ^ logGranule` bytes. -/
  logGranule : Word
  width : EntryWidth
  /-- The size of the table itself. -/
  tableBytes : Word
  entries : WordTable
  deriving Inhabited

namespace SideTable

/-- A table of zeros for a range, unless the system refuses one so large. -/
def create (width : EntryWidth) (start : Address) (covered logGranule : Word) :
    Except Fault (Except Refusal SideTable) := do
  let granules ← covered.shiftRight logGranule
  let tableBytes ← (max granules 1).product width.bytes
  if Layout.reservationLimit ≤ tableBytes then return .error .noMemory
  return .ok ⟨start, covered, logGranule, width, tableBytes, .empty⟩

/-- The size of a granule. -/
def granule (t : SideTable) : Except Fault Word := (1 : Word).shiftLeft t.logGranule

/-- The first address past the range. -/
def stop (t : SideTable) : Except Fault Address := t.start.above t.covered

/-- Does the range hold the address? -/
def covers (t : SideTable) (a : Address) : Except Fault Bool :=
  if t.start ≤ a then t.stop.map fun stop => decide (a < stop) else .ok false

/-- The number of the granule that an address of the range lies in. -/
def slotOf (t : SideTable) (a : Address) : Except Fault Word := do
  if ← t.covers a then (a.word - t.start.word).shiftRight t.logGranule
  else .error (.outsideTable a t.start (← t.stop))

/-- A slot that the table has. -/
def checkSlot (t : SideTable) (slot : Word) : Except Fault Nat := do
  let offset ← slot.product t.width.bytes
  if offset < t.tableBytes then .ok slot.toNat else .error (.slotOutOfRange slot)

/-- The value in a slot. -/
def loadSlot (t : SideTable) (slot : Word) : Except Fault Word := do
  return t.entries.get (← t.checkSlot slot)

/-- The value of the granule that an address lies in. -/
def load (t : SideTable) (a : Address) : Except Fault Word := do t.loadSlot (← t.slotOf a)

/-- The value of the granule that an address lies in, for a table of bytes. -/
def loadByte (t : SideTable) (a : Address) : Except Fault UInt8 := (t.load a).map (·.toUInt8)

/-- Replaces the value of the granule that an address lies in. -/
def store (a : Address) (value : Word) : Step SideTable Unit := do
  let slot ← Step.ask fun t => do t.checkSlot (← t.slotOf a)
  modify fun t => { t with entries := t.entries.set slot (t.width.truncate value) }

/-- The slots among the `count` from `slot` on whose value is not zero, with their values, after those
in `found`. -/
def scanFrom (t : SideTable) (found : Array (Word × Word)) (slot : Word) :
    Nat → Except Fault (Array (Word × Word))
  | 0 => .ok found
  | count + 1 => do
    let value ← t.loadSlot slot
    t.scanFrom (if value = 0 then found else found.push (slot, value)) (slot + 1) count

/-- The slots from `first` up to `stop` whose value is not zero, with their values. -/
def scan (t : SideTable) (first stop : Word) : Except Fault (Array (Word × Word)) :=
  t.scanFrom #[] first (stop.toNat - first.toNat)

/-- Puts zeros into the granules that meet the range of `bytes` from `start` on. -/
def clear (start : Address) (bytes : Word) : Step SideTable Unit := do
  if bytes = 0 then return
  let first ← Step.ask fun t => t.slotOf start
  let last ← Step.ask fun t => do t.slotOf (← start.above (bytes - 1))
  modify fun t => { t with entries := t.entries.clear first.toNat last.toNat }

end SideTable

end TracingHeap

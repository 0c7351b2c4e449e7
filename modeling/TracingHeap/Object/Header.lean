import TracingHeap.Checked
import TracingHeap.SpaceTag

/-!
Object headers. An object starts with one word that holds its size, the number of its reference slots
and a byte for the collector; the slots follow, then the payload. The collector's byte holds the tag of
the object's space and the unlogged bit of the write barrier.
-/

namespace TracingHeap.Object

/-- The collector's byte of an object. -/
structure Mark where
  bits : UInt8
  deriving DecidableEq, Inhabited

namespace Mark

/-- The bits of the space tag. -/
def tagMask : UInt8 := 15

/-- The bit of an object that a store has yet to be recorded for. -/
def unloggedBit : UInt8 := 16

/-- The byte of a new object or a new copy. -/
def fresh (tag : SpaceTag) (unlogged : Bool) : Mark :=
  ⟨(tag.number &&& tagMask) ||| (if unlogged then unloggedBit else 0)⟩

/-- The tag in the byte, if it stands for a space. -/
def tag? (m : Mark) : Option SpaceTag := SpaceTag.ofNumber? (m.bits &&& tagMask)

/-- Is the unlogged bit set? -/
def isUnlogged (m : Mark) : Bool := m.bits &&& unloggedBit != 0

/-- The byte with the unlogged bit set. -/
def unlogged (m : Mark) : Mark := ⟨m.bits ||| unloggedBit⟩

/-- The byte with the unlogged bit cleared. -/
def logged (m : Mark) : Mark := ⟨m.bits &&& ~~~unloggedBit⟩

end Mark

/-- The first word of an object. -/
structure Header where
  /-- The size in bytes. -/
  size : UInt32
  /-- The number of reference slots. -/
  slots : UInt16
  mark : Mark
  /-- A byte that objects do not use. -/
  spare : UInt8
  deriving DecidableEq, Inhabited

namespace Header

/-- The header in a word: the size lowest, then the slots, the collector's byte and the spare byte. -/
def ofWord (w : Word) : Header where
  size := w.toUInt32
  slots := (w >>> 32).toUInt16
  mark := ⟨(w >>> 48).toUInt8⟩
  spare := (w >>> 56).toUInt8

/-- The word of a header. -/
def toWord (h : Header) : Word :=
  h.size.toUInt64 ||| (h.slots.toUInt64 <<< 32) ||| (h.mark.bits.toUInt64 <<< 48) |||
    (h.spare.toUInt64 <<< 56)

end Header

/-- The bytes of a header. -/
def headerBytes : Word := 8

/-- The size of an object with a number of slots and no payload. -/
def bytesFor (slots : Word) : Except Fault Word := do
  let slotBytes ← slots.product Word.wordBytes
  return max (← headerBytes.sum slotBytes) 16

/-- The place of a slot. -/
def slotAt (object : Address) (index : Word) : Address :=
  object.plus (headerBytes + index * Word.wordBytes)

end TracingHeap.Object

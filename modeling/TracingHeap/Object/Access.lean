import TracingHeap.Memory
import TracingHeap.Object.Header

/-!
Access to objects in memory: their headers and the collector's byte.
-/

namespace TracingHeap.Memory

/-- The eight bytes from any address on, as a word. -/
def loadAny (m : Memory) (a : Address) : Word :=
  let shift := byteShift a
  if shift = 0 then m.load a
  else (m.load a >>> shift) ||| (m.load (a.plus 8) <<< (64 - shift))

/-- The header of an object. -/
def header (m : Memory) (object : Address) : Object.Header := .ofWord (m.loadAny object)

/-- The place of the collector's byte of an object. -/
def markPlace (object : Address) : Address := object.plus 6

/-- The collector's byte of an object. -/
def mark (m : Memory) (object : Address) : Object.Mark := ⟨m.loadByte (markPlace object)⟩

/-- Memory with the collector's byte of an object replaced. -/
def setMark (m : Memory) (object : Address) (mark : Object.Mark) : Memory :=
  m.storeByte (markPlace object) mark.bits

/-- Memory with the header of a new object without marks. -/
def setHeader (m : Memory) (object : Address) (bytes slots : Word) : Memory :=
  let spare := (Object.Header.ofWord (m.load object)).spare
  m.store object (Object.Header.toWord ⟨bytes.toUInt32, slots.toUInt16, ⟨0⟩, spare⟩)

end TracingHeap.Memory

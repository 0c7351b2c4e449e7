import TracingHeap.Word

/-!
Addresses of memory. An object is known by the address of its first byte, so references are addresses
too, and the zero address stands for no object.
-/

namespace TracingHeap

/-- A place in memory. -/
structure Address where
  /-- The distance in bytes from the lowest place. -/
  word : Word
  deriving DecidableEq, Hashable, Inhabited

namespace Address

/-- The lowest address, which no extent contains; it stands for the absent object. -/
def null : Address := ⟨0⟩

/-- Is this the absent object? -/
def isNull (a : Address) : Bool := a.word == 0

instance : LT Address := ⟨fun a b => a.word < b.word⟩

instance : LE Address := ⟨fun a b => a.word ≤ b.word⟩

instance (a b : Address) : Decidable (a < b) := inferInstanceAs (Decidable (a.word < b.word))

instance (a b : Address) : Decidable (a ≤ b) := inferInstanceAs (Decidable (a.word ≤ b.word))

instance : Ord Address := ⟨fun a b => compare a.word b.word⟩

/-- The address `bytes` further up; meant for places inside one extent, where it cannot wrap. -/
def plus (a : Address) (bytes : Word) : Address := ⟨a.word + bytes⟩

/-- The greatest multiple of `align` at or below the address. -/
def alignDown (a : Address) (align : Word) : Address := ⟨a.word.alignDown align⟩

/-- The least multiple of `align` at or above the address. -/
def alignUp (a : Address) (align : Word) : Address := ⟨a.word.alignUp align⟩

/-- The index of the page the address lies in. -/
def page (a : Address) : Word := a.word >>> Word.logPage

/-- The address as lower-case hexadecimal digits after `0x`. -/
def text (a : Address) : String := "0x" ++ a.word.hex

end Address

end TracingHeap

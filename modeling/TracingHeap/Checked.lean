import TracingHeap.Step

/-!
Checked arithmetic: sums, differences, products and shifts of words and addresses that break off
instead of wrapping, and the page counts built on them.
-/

namespace TracingHeap

namespace Word

/-- The sum, if it fits in a word. -/
def sum (a b : Word) : Except Fault Word :=
  if a ≤ a + b then .ok (a + b) else .error .addOverflow

/-- The difference, if it is not negative. -/
def difference (a b : Word) : Except Fault Word :=
  if b ≤ a then .ok (a - b) else .error .subtractOverflow

/-- The product, if it fits in a word. -/
def product (a b : Word) : Except Fault Word :=
  if a.toNat * b.toNat < UInt64.size then .ok (a * b) else .error .multiplyOverflow

/-- The word shifted towards its low end, if the amount is below the width. -/
def shiftRight (a amount : Word) : Except Fault Word :=
  if amount < 64 then .ok (a >>> amount) else .error .shiftRightOverflow

/-- The word shifted towards its high end, if the amount is below the width; high bits are lost. -/
def shiftLeft (a amount : Word) : Except Fault Word :=
  if amount < 64 then .ok (a <<< amount) else .error .shiftLeftOverflow

/-- The number of units of `2 ^ log` bytes that hold `bytes`. -/
def unitsUp (bytes unit log : Word) : Except Fault Word := do
  let padded ← sum bytes unit
  return (padded - 1) >>> log

/-- The number of pages that hold `bytes`. -/
def pagesUp (bytes : Word) : Except Fault Word := unitsUp bytes pageBytes logPage

/-- The number of chunks that hold `bytes`. -/
def chunksUp (bytes : Word) : Except Fault Word := unitsUp bytes chunkBytes logChunk

end Word

namespace Address

/-- The address `bytes` further up. -/
def above (a : Address) (bytes : Word) : Except Fault Address := (a.word.sum bytes).map Address.mk

/-- The address `bytes` further down. -/
def below (a : Address) (bytes : Word) : Except Fault Address :=
  (a.word.difference bytes).map Address.mk

/-- The address moved by a signed distance, both read as signed numbers. -/
def moved (a : Address) (distance : Int) : Except Fault Address :=
  let place := a.word.toSigned + distance
  if Word.fitsSigned place then .ok ⟨Word.ofSigned place⟩ else .error .addOverflow

/-- The address moved by a number of elements of `size` bytes. -/
def shifted (a : Address) (size distance : Int) : Except Fault Address :=
  if Word.fitsSigned (size * distance) then a.moved (size * distance) else .error .multiplyOverflow

/-- The distance down to a lower address. -/
def distance (upper lower : Address) : Except Fault Word :=
  if lower ≤ upper then .ok (upper.word - lower.word) else .error (.misorderedAddresses upper lower)

/-- The signed distance from `origin`, both addresses read as signed numbers. -/
def offsetFrom (a origin : Address) : Except Fault Int :=
  let offset := a.word.toSigned - origin.word.toSigned
  if Word.fitsSigned offset then .ok offset else .error .subtractOverflow

end Address

end TracingHeap

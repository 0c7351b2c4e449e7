import TracingHeap.Word

/-!
Tallies: what collections have done so far. The counters wrap.
-/

namespace TracingHeap

/-- The counts of one heap. -/
structure Tally where
  collections : Word
  /-- Collections of the whole heap. -/
  fullCollections : Word
  objectsCopied : Word
  bytesCopied : Word
  objectsMarked : Word
  /-- Time spent in collections, in billionths of a second. -/
  nanoseconds : Word
  deriving DecidableEq, Inhabited

namespace Tally

/-- Nothing was done yet. -/
def empty : Tally := ⟨0, 0, 0, 0, 0, 0⟩

/-- One more object of a number of bytes was copied. -/
def copied (t : Tally) (bytes : Word) : Tally :=
  { t with objectsCopied := t.objectsCopied + 1, bytesCopied := t.bytesCopied + bytes }

/-- One more object was marked. -/
def marked (t : Tally) : Tally := { t with objectsMarked := t.objectsMarked + 1 }

/-- One more collection was finished; of its time only what fits in a word is added. -/
def finished (t : Tally) (full : Bool) (nanoseconds : Nat) : Tally :=
  { t with
    collections := t.collections + 1
    fullCollections := if full then t.fullCollections + 1 else t.fullCollections
    nanoseconds := t.nanoseconds + UInt64.ofNat nanoseconds }

end Tally

end TracingHeap

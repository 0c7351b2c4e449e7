import TracingHeap.Binary.Single
import TracingHeap.Word

/-!
Requests for address space: as much as the heap may use, a number of bytes, or a fraction of the heap.
Extents are whole pages.
-/

namespace TracingHeap.Layout

/-- How much address space a space asks for. -/
inductive Request where
  /-- Room for the whole heap. -/
  | unbounded
  /-- A number of bytes. -/
  | bytes (count : Word)
  /-- A fraction of the heap, above zero and at most one. -/
  | share (fraction : Binary.Single)
  deriving DecidableEq

namespace Request

/-- Does the request leave the space as large as the heap? -/
def isUnbounded : Request → Bool
  | unbounded => true
  | _ => false

/-- A request for a number of `MiB`; bits that leave the word are dropped. -/
def mebibytes (count : Word) : Request := bytes (count <<< 20)

/-- The bytes asked for in a heap of `heap` bytes, before they are rounded to pages. -/
def bytesIn (heap : Word) : Request → Option Word
  | unbounded => some heap
  | bytes count => some count
  | share fraction =>
    if fraction.isProper then some (UInt64.ofNat (min (fraction.share heap.toNat) (UInt64.size - 1)))
    else none

/-- The extent asked for in a heap of `heap` bytes, in whole pages; nothing if the request is empty or
its fraction is out of range. An extent that does not fit in a word wraps to zero. -/
def extentIn (request : Request) (heap : Word) : Option Word :=
  (request.bytesIn heap).bind fun count =>
    if count = 0 then none else some (count.alignUp Word.pageBytes)

/-- The request in words. -/
def text : Request → String
  | unbounded => "Discontiguous"
  | bytes count => "Extent \x7b extent: " ++ toString count ++ " \x7d"
  | share fraction => "Fraction \x7b frac: " ++ fraction.text ++ " \x7d"

end Request

end TracingHeap.Layout

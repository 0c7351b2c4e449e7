import TracingHeap.Checked
import TracingHeap.Memory

/-!
Padding of requests: how many bytes an allocation takes, where in a region it starts so that it is
aligned, and how much room that can cost. The gap in front of an aligned start is filled with a marker. Which
alignments there are depends on the virtual machine.
-/

namespace TracingHeap.Padding

/-- The least number of bytes that an allocation takes, so that no two start in one granule. -/
def minObjectBytes : Word := 16

/-- Every allocation is aligned to this. -/
def minAlignment : Word := 8

/-- The largest alignment that an allocation may ask for. -/
def maxAlignment : Word := 16

/-- The word that fills gaps. -/
def gapMarker : Word := 0xdeadbeef

/-- The bytes that a request takes; the rounding up can wrap. -/
def allocationSize (bytes : Word) : Word := (max bytes minObjectBytes).alignUp minAlignment

/-- What a virtual machine fixes about alignment. Gaps are filled word by word, so the least alignment is a power of
two that is no less than a word. -/
structure Scheme where
  /-- Every place is a multiple of this. -/
  least : Word
  /-- The largest alignment that an allocation may ask for. -/
  most : Word
  /-- The word that fills gaps. -/
  marker : Word
  power : least.isPowerOfTwo = true := by decide
  words : Word.wordBytes ≤ least := by decide

namespace Scheme

/-- The first place at or above `region` that is a multiple of `alignment` once `offset` is added. -/
def alignedStart (v : Scheme) (region : Address) (alignment offset : Word) : Except Fault Address := do
  unless alignment ≤ v.most do throw (.alignmentTooLarge alignment)
  unless alignment.isPowerOfTwo do throw .alignmentNotPowerOfTwo
  unless offset % v.least = 0 do throw .offsetNotAligned
  if alignment ≤ v.least then return region
  region.above ((0 - offset - region.word) &&& (alignment - 1))

/-- The most bytes that a request of `bytes` takes once it is aligned. -/
def maxAlignedSize (v : Scheme) (bytes alignment : Word) : Except Fault Word := do
  if alignment ≤ v.least then return bytes
  (← bytes.sum alignment).difference v.least

/-- Puts the marker into the words from a place on, `count` of them. -/
def fillWords (v : Scheme) (m : Memory) (start : Address) : Nat → Memory
  | 0 => m
  | count + 1 => fillWords v (m.store start v.marker) (start.plus Word.wordBytes) count

/-- Puts the marker into the words from `start` to below `stop`. -/
def fillGap (v : Scheme) (m : Memory) (start stop : Address) : Memory :=
  if start < stop then v.fillWords m start ((stop.word - start.word + 7) / 8).toNat else m

/-- Aligns a start inside a region and fills the gap in front of it. -/
def align (v : Scheme) (region : Address) (alignment offset : Word) : Step Memory Address := do
  let start ← v.alignedStart region alignment offset
  modify fun m => v.fillGap m region start
  return start

end Scheme

/-- The scheme that the heap is run with. -/
def standard : Scheme := { least := minAlignment, most := maxAlignment, marker := gapMarker }

/-- An aligned start under the standard scheme. -/
def alignedStart (region : Address) (alignment offset : Word) : Except Fault Address :=
  standard.alignedStart region alignment offset

/-- The most bytes that an aligned request takes under the standard scheme. -/
def maxAlignedSize (bytes alignment : Word) : Except Fault Word := standard.maxAlignedSize bytes alignment

/-- Fills a gap under the standard scheme. -/
def fillGap (m : Memory) (start stop : Address) : Memory := standard.fillGap m start stop

/-- Aligns a start and fills the gap under the standard scheme. -/
def align (region : Address) (alignment offset : Word) : Step Memory Address := standard.align region alignment offset

end TracingHeap.Padding

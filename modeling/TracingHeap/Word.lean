/-!
Machine words: unsigned 64-bit numbers that wrap, the units a heap is measured in, and the rounding
of a word to a multiple of an alignment. Rounding up past the last multiple wraps to zero.
-/

namespace TracingHeap

/-- A machine word; its arithmetic wraps at `2 ^ 64`. -/
abbrev Word := UInt64

namespace Word

/-- Bytes in one word of memory. -/
def wordBytes : Word := 8

/-- Bytes in one page, the unit of commitment and of the page counters. -/
def pageBytes : Word := 4096

/-- Bytes in one chunk, the unit in which address space is reserved. -/
def chunkBytes : Word := 4194304

/-- The least `k` with `2 ^ k` bytes in a page. -/
def logPage : Word := 12

/-- The least `k` with `2 ^ k` bytes in a chunk. -/
def logChunk : Word := 22

/-- The least multiple of the power of two `align` that is at least `value`, or zero if that
multiple does not fit in a word. -/
def alignUp (value align : Word) : Word := (value + align - 1) &&& ~~~(align - 1)

/-- The greatest multiple of the power of two `align` that is at most `value`. -/
def alignDown (value align : Word) : Word := value &&& ~~~(align - 1)

/-- Is `value` a multiple of the power of two `align`? -/
def isAligned (value align : Word) : Bool := value &&& (align - 1) == 0

/-- Is the word a power of two? Zero is not. -/
def isPowerOfTwo (value : Word) : Bool := value != 0 && value &&& (value - 1) == 0

/-- The size of a number of pages in bytes; bits that leave the word are dropped. -/
def ofPages (pages : Word) : Word := pages <<< logPage

/-- Subtraction that stops at zero. -/
def minusOrZero (a b : Word) : Word := if b ≤ a then a - b else 0

/-- The word as a signed number in two's complement. -/
def toSigned (value : Word) : Int := value.toInt64.toInt

/-- Does a signed result fit in a word read as signed? -/
def fitsSigned (value : Int) : Bool := -9223372036854775808 ≤ value && value < 9223372036854775808

/-- The word that represents a signed number in two's complement. -/
def ofSigned (value : Int) : Word := (Int64.ofInt value).toUInt64

/-- Lower-case hexadecimal digits, without a mark in front. -/
def hex (value : Word) : String := String.ofList (Nat.toDigits 16 value.toNat)

/-- A size in the largest unit of `B`, `KiB`, `MiB`, `GiB` that leaves at least one, rounded down. -/
def readableSize (bytes : Word) : String :=
  if bytes < 1024 then toString bytes ++ "B"
  else if bytes >>> 10 < 1024 then toString (bytes >>> 10) ++ "KiB"
  else if bytes >>> 20 < 1024 then toString (bytes >>> 20) ++ "MiB"
  else toString (bytes >>> 30) ++ "GiB"

end Word

end TracingHeap

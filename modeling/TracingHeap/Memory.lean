import TracingHeap.Address
import TracingHeap.WordTable

/-!
Memory: the words stored at addresses. Memory that is committed reads as zero until it is written, and
memory that is given back is forgotten, so that committing it again gives zeros.
-/

namespace TracingHeap

/-- The contents of memory, a word for every eight bytes. -/
structure Memory where
  words : WordTable
  deriving Inhabited

namespace Memory

/-- Memory that was never written. -/
def empty : Memory := ⟨.empty⟩

/-- The number of the word at an address. -/
def slot (a : Address) : Nat := (a.word >>> 3).toNat

/-- The word at an address. -/
def load (m : Memory) (a : Address) : Word := m.words.get (slot a)

/-- Memory with one word replaced. -/
def store (m : Memory) (a : Address) (value : Word) : Memory := ⟨m.words.set (slot a) value⟩

/-- Memory in which each of `count` words from `start` on holds a value. -/
def fill (m : Memory) (start : Address) (value : Word) : Nat → Memory
  | 0 => m
  | count + 1 => fill (m.store (start.plus (8 * UInt64.ofNat count)) value) start value count

/-- The number of bits below the byte of a word that an address names. -/
def byteShift (a : Address) : Word := (a.word &&& 7) <<< 3

/-- The byte at an address. -/
def loadByte (m : Memory) (a : Address) : UInt8 := (m.load a >>> byteShift a).toUInt8

/-- Memory with one byte replaced. -/
def storeByte (m : Memory) (a : Address) (value : UInt8) : Memory :=
  let shift := byteShift a
  m.store a ((m.load a &&& ~~~((255 : Word) <<< shift)) ||| (value.toUInt64 <<< shift))

/-- Memory in which the `bytes` from `start` on, a positive number of whole words, are zero. -/
def zero (m : Memory) (start : Address) (bytes : Word) : Memory :=
  ⟨m.words.clear (slot start) (slot start + (bytes.toNat / 8 - 1))⟩

/-- Copies `count` words between places that do not overlap. -/
def copyWords (m : Memory) (source target : Nat) : Nat → Memory
  | 0 => m
  | count + 1 =>
    copyWords ⟨m.words.set (target + count) (m.words.get (source + count))⟩ source target count

/-- Copies `count` bytes one by one between places that do not overlap. -/
def copyBytes (m : Memory) (source target : Address) : Nat → Memory
  | 0 => m
  | count + 1 =>
    let i : Word := UInt64.ofNat count
    copyBytes (m.storeByte (target.plus i) (m.loadByte (source.plus i))) source target count

/-- Copies `bytes` bytes between places that do not overlap, whole words first if both places are
aligned to words. -/
def copy (m : Memory) (source target : Address) (bytes : Nat) : Memory :=
  let words := if source.word.isAligned 8 && target.word.isAligned 8 then bytes / 8 else 0
  let whole : Word := UInt64.ofNat (words * 8)
  (m.copyWords (slot source) (slot target) words).copyBytes (source.plus whole) (target.plus whole)
    (bytes - words * 8)

/-- Do the first `count` words from `start` on all hold zero? -/
def isZero (m : Memory) (start : Nat) : Nat → Bool
  | 0 => true
  | count + 1 => m.words.get (start + count) == 0 && isZero m start count

end Memory

/-- Why the system refused memory. -/
inductive Refusal where
  /-- No address space or memory is left. -/
  | noMemory
  /-- The request is for no bytes at all. -/
  | invalid
  deriving DecidableEq

/-- The words of a refusal. -/
def Refusal.message : Refusal → String
  | .noMemory => "Cannot allocate memory (os error 12)"
  | .invalid => "Invalid argument (os error 22)"

namespace Memory

/-- Backs a page-aligned range with zeros; a range of no bytes is refused. -/
def commit (m : Memory) (start : Address) (bytes : Word) : Except Refusal Memory :=
  if bytes = 0 then .error .invalid else .ok (m.zero start bytes)

/-- Backs a range as `commit` does, unless the system refuses for a reason of its own. -/
def commitUnless (m : Memory) (refusal : Option Refusal) (start : Address) (bytes : Word) : Except Refusal Memory :=
  match refusal with
  | some cause => .error cause
  | none => m.commit start bytes

/-- Gives a range back; one that is empty or does not start with a page is left alone. -/
def giveBack (m : Memory) (start : Address) (bytes : Word) : Memory :=
  if bytes = 0 ∨ !start.word.isAligned Word.pageBytes then m else m.zero start bytes

end Memory

end TracingHeap

import Std.Data.TreeMap
import TracingHeap.Word

/-!
Word tables: unbounded tables of words that hold zero wherever nothing was stored. Leaves of 512
words are kept only where something was stored, so a table of a large range costs little.
-/

namespace TracingHeap

/-- A table of words, zero wherever nothing was stored. -/
structure WordTable where
  /-- The leaves by number; leaf `k` holds the words from `512 * k` on. -/
  leaves : Std.TreeMap Nat (Vector Word 512)
  deriving Inhabited

namespace WordTable

/-- The table of zeros. -/
def empty : WordTable := ⟨∅⟩

/-- A leaf of zeros. -/
def blank : Vector Word 512 := Vector.replicate 512 0

/-- The place of an index within its leaf. -/
theorem mod_lt_leaf (i : Nat) : i % 512 < 512 := Nat.mod_lt i (by decide)

/-- The word at an index. -/
def get (table : WordTable) (i : Nat) : Word :=
  match table.leaves[i / 512]? with
  | some leaf => leaf.get ⟨i % 512, mod_lt_leaf i⟩
  | none => 0

/-- The table with the word at one index replaced. -/
def set (table : WordTable) (i : Nat) (value : Word) : WordTable :=
  ⟨table.leaves.alter (i / 512) fun leaf =>
    some ((leaf.getD blank).set (i % 512) value (mod_lt_leaf i))⟩

/-- The leaf with zeros at `count` places from `first` on. -/
def blankFrom (leaf : Vector Word 512) (first : Nat) : Nat → Vector Word 512
  | 0 => leaf
  | count + 1 => blankFrom (leaf.setIfInBounds (first + count) 0) first count

/-- What is left of leaf `k` once the indices from `first` to `last` hold zeros. -/
def clearLeaf (first last k : Nat) (leaf : Vector Word 512) : Option (Vector Word 512) :=
  if first ≤ 512 * k ∧ 512 * k + 511 ≤ last then none
  else some (blankFrom leaf (first - 512 * k)
    (min (last + 1) (512 * k + 512) - max first (512 * k)))

/-- The table with zeros at those indices from `first` to `last` that lie in one of `count` leaves from
number `k` on. -/
def clearLeaves (table : WordTable) (first last k : Nat) : Nat → WordTable
  | 0 => table
  | count + 1 =>
    clearLeaves ⟨table.leaves.alter (k + count) (·.bind (clearLeaf first last (k + count)))⟩
      first last k count

/-- The table with zeros at the indices from `first` to `last`, both included. The leaves are visited one
by one if the range has fewer than the table. -/
def clear (table : WordTable) (first last : Nat) : WordTable :=
  let count := last / 512 + 1 - first / 512
  if count ≤ table.leaves.size then clearLeaves table first last (first / 512) count
  else ⟨table.leaves.filterMap (clearLeaf first last)⟩

end WordTable

end TracingHeap

import TracingHeap.Word

/-!
Size classes of the mark-sweep space. Blocks are cut into cells of one size each, and a request takes a
cell of the smallest class that holds it.
-/

namespace TracingHeap.SizeClass

/-- The sizes of cells in bytes. -/
def sizes : Array Word :=
  #[16, 24, 32, 48, 64, 96, 128, 192, 256, 384, 512, 768, 1024, 1536, 2048, 3072, 4096, 6144, 8192]

/-- The size of a block in bytes. -/
def blockBytes : Word := 65536

/-- The pages of a block. -/
def blockPages : Nat := 16

/-- The smallest class whose cells hold a number of bytes. -/
def classFor? (bytes : Word) : Option Nat := sizes.findIdx? (bytes ≤ ·)

/-- The size of the cells of a class. -/
def sizeOf? (size : Nat) : Option Word := sizes[size]?

/-- The number of cells in a block of cells of a size. -/
def cells (size : Word) : Nat := (blockBytes / size).toNat

end TracingHeap.SizeClass

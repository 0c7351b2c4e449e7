import Mathlib.Data.List.Perm.Basic
import TracingHeap.Allocator.Basic
import TracingHeap.Proofs.SideTables
import TracingHeap.Proofs.Supply

/-! Who holds which memory. Everything that was handed out is a room of the program or of a copy, a buffer
of a bump allocator, or a free cell on some list; no two of these meet. Free cells are threaded through
memory, so the lists are carried along as data. -/

namespace TracingHeap

open List

/-! ### Cells -/

/-- The bytes of a cell of a class, or zero for no class. -/
def SizeClass.bytesOf (sizeClass : Nat) : Nat := ((SizeClass.sizeOf? sizeClass).getD 0).toNat

theorem SizeClass.bytesOf_facts {sizeClass : Nat} (known : sizeClass < 19) :
    16 ≤ SizeClass.bytesOf sizeClass ∧ SizeClass.bytesOf sizeClass ≤ 8192 ∧
      SizeClass.bytesOf sizeClass % 8 = 0 := by
  have all : ∀ c : Fin 19, 16 ≤ SizeClass.bytesOf c ∧ SizeClass.bytesOf c ≤ 8192 ∧ SizeClass.bytesOf c % 8 = 0 := by
    decide
  exact all ⟨sizeClass, known⟩

theorem SizeClass.sizeOf_ok {sizeClass : Nat} {size : Word} (found : SizeClass.sizeOf? sizeClass = some size) :
    sizeClass < 19 ∧ size.toNat = SizeClass.bytesOf sizeClass := by
  refine ⟨?_, by rw [SizeClass.bytesOf, found]; rfl⟩
  unfold SizeClass.sizeOf? at found
  obtain ⟨bound, -⟩ := Array.getElem?_eq_some_iff.mp found
  exact bound

namespace Block

/-- The bytes of a cell of the block. -/
def bytes (b : Block) : Nat := SizeClass.bytesOf b.sizeClass

/-- The number of cells of the block. -/
def count (b : Block) : Nat := 65536 / b.bytes

/-- The addresses of a cell. -/
def cell (b : Block) (k : Nat) : Span := ⟨b.start.toNat + k * b.bytes, b.start.toNat + (k + 1) * b.bytes⟩

/-- The addresses of the block. -/
def span (b : Block) : Span := ⟨b.start.toNat, b.start.toNat + 65536⟩

theorem cell_within (b : Block) {k : Nat} (inside : k < b.count) : (b.cell k).Within b.span := by
  have room : (k + 1) * b.bytes ≤ 65536 :=
    Nat.le_trans (Nat.mul_le_mul_right _ inside) (Nat.div_mul_le_self ..)
  simp only [Span.Within, cell, span]
  omega

theorem cell_apart (b : Block) {j k : Nat} (differ : j ≠ k) : (b.cell j).Apart (b.cell k) := by
  simp only [Span.Apart, cell]
  rcases Nat.lt_or_gt_of_ne differ with less | less
  · have := Nat.mul_le_mul_right b.bytes (show j + 1 ≤ k from less)
    omega
  · have := Nat.mul_le_mul_right b.bytes (show k + 1 ≤ j from less)
    omega

end Block

namespace MarkSweepSpace

/-- The blocks are live runs of their own, and the tables beside the space know them. -/
structure Gridded (x : MarkSweepSpace) : Prop where
  classes : ∀ b ∈ x.blocks, b.sizeClass < 19
  live : ∀ b ∈ x.blocks, ∃ run ∈ x.pages.map.live, run.pages = 16 ∧ b.start.toNat = (x.pages.spanOf run).lo
  distinct : x.blocks.Pairwise fun b c => b.start ≠ c.start
  tables : ∀ b ∈ x.blocks, ∀ a : Address, b.span.lo ≤ a.toNat → a.toNat < b.span.hi →
    x.blockStarts.entry a = b.start.word ∧ x.blockClasses.entry a = UInt64.ofNat b.sizeClass
  starts : x.blockStarts.Beside x.pages.extent .word 12
  classNumbers : x.blockClasses.Beside x.pages.extent .byte 12
  heads : ∀ heads ∈ x.available, ∀ head ∈ heads, head ≠ .null

/-- The span is a cell of the class. -/
def Cell (x : MarkSweepSpace) (sizeClass : Nat) (r : Span) : Prop :=
  ∃ b ∈ x.blocks, b.sizeClass = sizeClass ∧ ∃ k < b.count, r = b.cell k

end MarkSweepSpace

/-! ### Free lists -/

/-- A list of free cells: the class, the first cell, and all cells in order. -/
structure FreeList where
  sizeClass : Nat
  head : Address
  cells : List Address
  deriving DecidableEq

/-- Each cell holds the address of the next one, and the last one holds null. -/
def Threaded (m : Memory) : Address → List Address → Prop
  | head, [] => head = .null
  | head, cell :: rest => head = cell ∧ cell ≠ .null ∧ Threaded m ⟨m.word (cell.toNat / 8)⟩ rest

namespace FreeList

/-- The addresses of a free cell. -/
def spanOf (l : FreeList) (cell : Address) : Span := ⟨cell.toNat, cell.toNat + SizeClass.bytesOf l.sizeClass⟩

/-- The memory on the list. -/
def spans (l : FreeList) : List (SpaceId × Span) := l.cells.map fun cell => (.second, l.spanOf cell)

/-- By what allocators and spaces know a list. -/
def key (l : FreeList) : Nat × Address := (l.sizeClass, l.head)

end FreeList

theorem Threaded.frame {m m' : Memory} {head : Address} {cells : List Address} (chain : Threaded m head cells)
    (same : ∀ cell ∈ cells, m'.word (cell.toNat / 8) = m.word (cell.toNat / 8)) : Threaded m' head cells := by
  induction cells generalizing head with
  | nil => exact chain
  | cons cell rest ih =>
    obtain ⟨first, proper, next⟩ := chain
    refine ⟨first, proper, ?_⟩
    rw [same cell mem_cons_self]
    exact ih next fun c inside => same c (mem_cons_of_mem _ inside)

/-! ### What allocators hold -/

/-- The memory at hand of a bump allocator. -/
def BumpAllocator.buffer (b : BumpAllocator) : List (SpaceId × Span) :=
  if b.cursor.isNull then [] else [(b.space, ⟨b.cursor.toNat, b.limit.toNat⟩)]

/-- The free lists of a cell allocator. -/
def CellAllocator.keys (c : CellAllocator) : List (Nat × Address) := c.heads.toList.mapIdx Prod.mk

/-- The memory at hand of the bump allocators of a set. -/
def AllocatorSet.buffers (s : AllocatorSet) : List (SpaceId × Span) := s.bumps.toList.flatMap (·.buffer)

/-- The free lists of the cell allocators of a set. -/
def AllocatorSet.keys (s : AllocatorSet) : List (Nat × Address) := s.cells.toList.flatMap (·.keys)

namespace Spaces

/-- The free lists that no allocator has. -/
def stock (s : Spaces) : List (Nat × Address) :=
  match s.second with
  | .mature x => (x.available.toList.mapIdx fun k heads => heads.map (Prod.mk k)).flatten
  | .twin _ => []

/-- A span that can be held in a space: a cell, a live run, or any whole words that were handed out. -/
def Houses (s : Spaces) (id : SpaceId) (r : Span) : Prop :=
  match s.space id with
  | .copying x => x.pages.Issued r ∧ r.Whole
  | .immortal x => x.pages.Issued r ∧ r.Whole
  | .large x => ∃ run ∈ x.pages.map.live, r = x.pages.spanOf run
  | .markSweep x => ∃ sizeClass, x.Cell sizeClass r

/-- A space that hands memory out from the bottom. -/
def Bumpable (s : Spaces) (id : SpaceId) : Prop :=
  match s.space id with
  | .copying _ | .immortal _ => True
  | _ => False

/-- The plan tells which spaces bump allocators can cut. -/
theorem bumpable_iff {s : Spaces} {id : SpaceId} :
    s.Bumpable id ↔ id = .first ∨ id = .immortal ∨ id = .second ∧ s.plan = .semispace := by
  unfold Bumpable Spaces.plan
  cases id with
  | first => simp [Spaces.space]
  | immortal => simp [Spaces.space]
  | large => simp [Spaces.space]
  | second => cases second : s.second <;> simp [Spaces.space, second]

/-- The cells of a list were cut from one block of its class. -/
def Cuts (s : Spaces) (l : FreeList) : Prop :=
  l.cells = [] ∨ ∃ x, s.second = .mature x ∧ ∃ b ∈ x.blocks, b.sizeClass = l.sizeClass ∧
    ∀ cell ∈ l.cells, ∃ k < b.count, l.spanOf cell = b.cell k

/-- The blocks of the mature store, if there is one, are in order. -/
def Gridded (s : Spaces) : Prop := ∀ x, s.second = .mature x → x.Gridded

/-- The rooms, the buffers and the free cells share no memory. -/
structure Stocked (s : Spaces) (m : Memory) (rooms buffers : List (SpaceId × Span))
    (lists : List FreeList) : Prop where
  apart : (rooms ++ buffers ++ lists.flatMap (·.spans)).Pairwise fun a b => a.2.Apart b.2
  housed : ∀ h ∈ rooms, s.Houses h.1 h.2
  ready : ∀ h ∈ buffers, s.Bumpable h.1 ∧ s.Houses h.1 h.2 ∧ m.ZeroOn h.2
  free : ∀ l ∈ lists, Threaded m l.head l.cells ∧ s.Cuts l

/-- Rooms, buffers and free lists share out what the spaces have handed out. -/
structure Estate (s : Spaces) (m : Memory) (rooms buffers : List (SpaceId × Span))
    (keys : List (Nat × Address)) : Prop where
  laid : s.LaidOut
  supplied : s.Supplied m
  gridded : s.Gridded
  stocked : ∃ lists, Stocked s m rooms buffers lists ∧ lists.map FreeList.key ~ s.stock ++ keys

variable {s s' : Spaces} {m m' : Memory} {rooms rooms' buffers buffers' : List (SpaceId × Span)}
  {keys keys' : List (Nat × Address)} {lists lists' : List FreeList}

/-! ### Where held memory lies -/

theorem Cuts.cell {l : FreeList} {cell : Address} (cuts : s.Cuts l) (member : cell ∈ l.cells) :
    ∃ x, s.second = .mature x ∧ x.Cell l.sizeClass (l.spanOf cell) := by
  rcases cuts with none_left | ⟨x, second, b, listed, known, each⟩
  · exact absurd member (none_left ▸ not_mem_nil)
  · exact ⟨x, second, b, listed, known, each cell member⟩

/-- A list keeps to its block as long as the block is there. -/
theorem Cuts.imp {l : FreeList} (cuts : s.Cuts l) (blocks : ∀ x, s.second = .mature x → ∃ y, s'.second = .mature y ∧
    ∀ b ∈ x.blocks, (∃ cell ∈ l.cells, ∃ k < b.count, l.spanOf cell = b.cell k) → b ∈ y.blocks) : s'.Cuts l := by
  rcases cuts with none_left | ⟨x, second, b, listed, known, each⟩
  · exact .inl none_left
  · obtain ⟨y, second', there⟩ := blocks x second
    cases cells : l.cells with
    | nil => exact .inl cells
    | cons cell _ =>
      have member : cell ∈ l.cells := cells ▸ mem_cons_self
      exact .inr ⟨y, second', b, there b listed ⟨cell, member, each cell member⟩, known, each⟩

theorem Cuts.fewer {sizeClass : Nat} {head head' : Address} {cells cells' : List Address}
    (cuts : s.Cuts ⟨sizeClass, head, cells⟩) (fewer : cells' ⊆ cells) : s.Cuts ⟨sizeClass, head', cells'⟩ := by
  rcases cuts with none_left | ⟨x, second, b, listed, known, each⟩
  · subst none_left
    exact .inl (subset_nil.mp fewer)
  · exact .inr ⟨x, second, b, listed, known, fun cell member => each cell (fewer member)⟩

theorem cell_issued {x : MarkSweepSpace} {sizeClass : Nat} {r : Span} (gridded : x.Gridded)
    (cell : x.Cell sizeClass r) : x.pages.Issued r := by
  obtain ⟨b, member, -, k, inside, rfl⟩ := cell
  obtain ⟨run, live, pages, start⟩ := gridded.live b member
  refine ⟨run, live, (b.cell_within inside).trans ?_⟩
  simp only [Span.Within, Block.span, start, Pages.Runs.spanOf]
  omega

theorem cell_whole {x : MarkSweepSpace} {sizeClass : Nat} {r : Span} (gridded : x.Gridded)
    (placed : x.pages.extent.Placed) (cell : x.Cell sizeClass r) :
    r.Whole ∧ sizeClass < 19 ∧ r.hi = r.lo + SizeClass.bytesOf sizeClass := by
  obtain ⟨b, member, rfl, k, inside, rfl⟩ := cell
  obtain ⟨run, live, pages, start⟩ := gridded.live b member
  have known := gridded.classes b member
  obtain ⟨-, -, words⟩ := SizeClass.bytesOf_facts known
  have page := placed.start
  have step : (k + 1) * b.bytes = k * b.bytes + b.bytes := by rw [Nat.add_mul, Nat.one_mul]
  have multiple : k * b.bytes % 8 = 0 := by
    rw [Nat.mul_mod, show b.bytes % 8 = 0 from words]
    simp
  have words' : b.bytes % 8 = 0 := words
  refine ⟨⟨?_, ?_, ?_⟩, known, ?_⟩
  · simp only [Block.cell, start, Pages.Runs.spanOf]
    omega
  · simp only [Block.cell, start, Pages.Runs.spanOf]
    omega
  · simp only [Block.cell]
    omega
  · simp only [Block.cell, step]
    exact (Nat.add_assoc ..).symm

/-- The mature store is the only mark-sweep space. -/
theorem second_of_markSweep {id : SpaceId} {x : MarkSweepSpace} (space : s.space id = .markSweep x) :
    id = .second ∧ s.second = .mature x := by
  cases id with
  | second =>
    unfold Spaces.space at space
    cases second : s.second with
    | mature y =>
      rw [second] at space
      cases space
      exact ⟨rfl, rfl⟩
    | twin y =>
      rw [second] at space
      cases space
  | first => cases space
  | immortal => cases space
  | large => cases space

/-- A mature store is what makes a heap generational. -/
theorem generational_iff : s.plan = .generational ↔ ∃ x, s.second = .mature x := by
  unfold plan
  cases s.second with
  | mature x => exact iff_of_true rfl ⟨x, rfl⟩
  | twin x => exact iff_of_false nofun nofun

theorem home_of_immortal {id : SpaceId} {x : ImmortalSpace} (space : s.space id = .immortal x) : id = .immortal := by
  cases id with
  | immortal => rfl
  | first => cases space
  | second => cases second : s.second <;> rw [Spaces.space, second] at space <;> cases space
  | large => cases space

theorem home_of_large {id : SpaceId} {x : LargeSpace} (space : s.space id = .large x) : id = .large ∧ s.large = x := by
  cases id with
  | large => exact ⟨rfl, Space.large.inj space⟩
  | first => cases space
  | second => cases second : s.second <;> rw [Spaces.space, second] at space <;> cases space
  | immortal => cases space

theorem Houses.issued {id : SpaceId} {r : Span} (gridded : s.Gridded) (housed : s.Houses id r) :
    s.Issued id r := by
  unfold Houses at housed
  unfold Issued
  cases space : s.space id with
  | copying x =>
    simp only [space] at housed ⊢
    exact housed.1
  | immortal x =>
    simp only [space] at housed ⊢
    exact housed.1
  | large x =>
    simp only [space] at housed ⊢
    obtain ⟨run, live, rfl⟩ := housed
    exact ⟨run, live, .refl _⟩
  | markSweep x =>
    simp only [space] at housed ⊢
    obtain ⟨sizeClass, cell⟩ := housed
    exact cell_issued (gridded x (second_of_markSweep space).2) cell

theorem Houses.whole {id : SpaceId} {r : Span} (laid : s.LaidOut) (gridded : s.Gridded)
    (housed : s.Houses id r) : r.Whole := by
  have placed := laid.placed id
  unfold Houses at housed
  cases space : s.space id with
  | copying x =>
    simp only [space] at housed
    exact housed.2
  | immortal x =>
    simp only [space] at housed
    exact housed.2
  | large x =>
    simp only [space] at housed placed
    obtain ⟨run, live, rfl⟩ := housed
    have page : x.pages.extent.start.toNat % 4096 = 0 := placed.start
    refine ⟨?_, ?_, ?_⟩
    · simp only [Pages.Runs.spanOf]
      omega
    · simp only [Pages.Runs.spanOf]
      omega
    · simp only [Pages.Runs.spanOf]
      omega
  | markSweep x =>
    simp only [space] at housed placed
    obtain ⟨sizeClass, cell⟩ := housed
    exact (cell_whole (gridded x (second_of_markSweep space).2) placed cell).1

end Spaces

end TracingHeap

import TracingHeap.Proofs.Moments

/-! The cells of the mature store. Free cells are linked through their own memory, and the lists change hands between the
store, the mutators and the collectors; at every moment of a program each list keeps to one block, no free cell is
listed twice or in use, and the tables beside the store lead from every address in a cell to the start of the cell. -/

namespace TracingHeap

open List Memory

/-- The mature store of a heap is in order, with the collectors `cs` and the memory in use. -/
structure MarkSweepSpace.Orderly (x : MarkSweepSpace) (h : Heap) (cs : List Collector) (tenants : Set Tenant) : Prop where
  /-- The free lists of the store, of the mutators and of the collectors all end, and each keeps to the cells of one block
  of its class. No cell is on two of them or twice on one, and none meets memory in use. -/
  lists : ∃ lists : List FreeList, lists.map FreeList.key ~ h.spaces.stock ++ (cs.flatMap Collector.keys ++ h.keys) ∧
    (∀ l ∈ lists, Threaded h.memory l.head l.cells ∧ (l.cells = [] ∨ ∃ b ∈ x.blocks, b.sizeClass = l.sizeClass ∧
      ∀ cell ∈ l.cells, ∃ k < b.count, l.spanOf cell = b.cell k)) ∧
    (lists.flatMap (·.cells)).Nodup ∧
    ∀ l ∈ lists, ∀ cell ∈ l.cells, ∀ t ∈ tenants, t.start.toNat + t.bytes ≤ (l.spanOf cell).lo ∨ (l.spanOf cell).hi ≤ t.start.toNat
  /-- The tables name the block and the class at every page of a block. -/
  tables : ∀ b ∈ x.blocks, ∀ a : Address, b.span.lo ≤ a.toNat → a.toNat < b.span.hi →
    x.blockStarts.entry a = b.start.word ∧ x.blockClasses.entry a = UInt64.ofNat b.sizeClass
  /-- Every address in a cell leads to the start of the cell. -/
  cellOf : ∀ b ∈ x.blocks, ∀ k < b.count, ∀ a : Address, (b.cell k).lo ≤ a.toNat → a.toNat < (b.cell k).hi →
    ∃ cell, x.cellOf a = .ok cell ∧ cell.toNat = (b.cell k).lo
  /-- Memory in use has a cell of its own. -/
  own : ∀ t ∈ tenants, t.home = .second → ∃ b ∈ x.blocks, ∃ k < b.count, (b.cell k).lo ≤ t.start.toNat ∧
    t.start.toNat + t.bytes ≤ (b.cell k).hi ∧ ∃ cell, x.cellOf t.start = .ok cell ∧ cell.toNat = (b.cell k).lo ∧
      ∀ t' ∈ tenants, t' ≠ t → t'.start.toNat + t'.bytes ≤ (b.cell k).lo ∨ (b.cell k).hi ≤ t'.start.toNat
  /-- Different cells have different marks. -/
  marks : ∀ b ∈ x.blocks, ∀ j < b.count, ∀ b' ∈ x.blocks, ∀ k < b'.count, ∀ cell cell' : Address,
    cell.toNat = (b.cell j).lo → cell'.toNat = (b'.cell k).lo → cell ≠ cell' → x.marks.index cell ≠ x.marks.index cell'

namespace MarkSweepSpace.Gridded

variable {x : MarkSweepSpace} {b b' : Block} {j k : Nat}

theorem cell_within (grid : x.Gridded) (sound : x.pages.Sound) (listed : b ∈ x.blocks) (inside : k < b.count) :
    (b.cell k).Within x.pages.extent.span := by
  obtain ⟨_, -, -, within, -⟩ := grid.run sound listed
  exact (b.cell_within inside).trans within

/-- Cells have at least two words. -/
theorem cell_wide (grid : x.Gridded) (listed : b ∈ x.blocks) (k : Nat) : (b.cell k).lo + 16 ≤ (b.cell k).hi := by
  have least := (SizeClass.bytesOf_facts (grid.classes b listed)).1
  simp only [Block.cell, Block.bytes, Nat.add_mul, Nat.one_mul]
  omega

/-- Cells start at least two words apart from each other. -/
theorem cells_far (grid : x.Gridded) (sound : x.pages.Sound) (listed : b ∈ x.blocks) (inside : j < b.count) (listed' : b' ∈ x.blocks)
    (inside' : k < b'.count) (differ : (b, j) ≠ (b', k)) :
    (b.cell j).lo + 16 ≤ (b'.cell k).lo ∨ (b'.cell k).lo + 16 ≤ (b.cell j).lo := by
  have apart : (b.cell j).Apart (b'.cell k) := by
    by_cases same : b = b'
    · subst same
      exact b.cell_apart fun same => differ (same ▸ rfl)
    · exact (grid.apart sound listed listed' same).mono (b.cell_within inside) (b'.cell_within inside')
  have one := grid.cell_wide listed j
  have two := grid.cell_wide listed' k
  unfold Span.Apart at apart
  omega

end MarkSweepSpace.Gridded

namespace Spaces

variable {s : Spaces} {m : Memory} {rooms buffers : List (SpaceId × Span)} {keys : List (Nat × Address)} {lists : List FreeList}
  {l : FreeList} {cell : Address} {x : MarkSweepSpace}

/-- Free cells have at least two words. -/
theorem Stocked.spanOf_wide (stocked : s.Stocked m rooms buffers lists) (laid : s.LaidOut) (gridded : s.Gridded) (listed : l ∈ lists)
    (member : cell ∈ l.cells) : (l.spanOf cell).lo + 16 ≤ (l.spanOf cell).hi := by
  obtain ⟨x, second, grid⟩ := (stocked.free l listed).2.cell member
  have placed := laid.placed .second
  simp only [space, second] at placed
  obtain ⟨-, known, -⟩ := cell_whole (gridded x second) placed grid
  exact Nat.add_le_add_left (SizeClass.bytesOf_facts known).1 _

/-- No cell is on two free lists or twice on one. -/
theorem Stocked.nodup (stocked : s.Stocked m rooms buffers lists) (laid : s.LaidOut) (gridded : s.Gridded) :
    (lists.flatMap (·.cells)).Nodup := by
  obtain ⟨inner, outer⟩ := pairwise_flatMap.mp (pairwise_append.mp stocked.apart).2.1
  have differ : ∀ l ∈ lists, ∀ l' ∈ lists, ∀ a ∈ l.cells, ∀ b ∈ l'.cells, (l.spanOf a).Apart (l'.spanOf b) → a ≠ b := by
    rintro l listed l' listed' a member _ member' apart rfl
    have wide := stocked.spanOf_wide laid gridded listed member
    have wide' := stocked.spanOf_wide laid gridded listed' member'
    simp only [Span.Apart, FreeList.spanOf] at apart wide wide'
    omega
  refine pairwise_flatMap.mpr ⟨fun l listed => ?_, outer.imp_of_mem fun {l l'} listed listed' apart a member b member' => ?_⟩
  · exact (pairwise_map.mp (inner l listed)).imp_of_mem fun {a b} member member' => differ l listed l listed a member b member'
  · exact differ l listed l' listed' a member b member' (apart _ (mem_map_of_mem member) _ (mem_map_of_mem member'))

/-- No free cell meets a room. -/
theorem Stocked.room_apart {room : SpaceId × Span} (stocked : s.Stocked m rooms buffers lists) (listed : l ∈ lists)
    (member : cell ∈ l.cells) (held : room ∈ rooms) : room.2.Apart (l.spanOf cell) :=
  (pairwise_append.mp stocked.apart).2.2 room (mem_append_left _ held) (.second, l.spanOf cell)
    (mem_flatMap.mpr ⟨l, listed, mem_map_of_mem member⟩)

end Spaces

/-- What shares nothing with the room of a piece shares nothing with the piece. -/
theorem Piece.Placed.outside {p : Piece} {r : Span} (placed : p.Placed) (apart : p.span.Apart r) :
    p.start.toNat + p.bytes ≤ r.lo ∨ r.hi ≤ p.start.toNat := by
  have low := placed.low
  have high := placed.high
  unfold Span.Apart at apart
  omega

/-- Whoever holds memory, if everything has its place then the mature store is in order. -/
theorem MarkSweepSpace.Orderly.of_custody {h : Heap} {cs : List Collector} {pieces₀ pieces : List Piece} {tenants : Set Tenant}
    {x : MarkSweepSpace} (custody : h.Custody cs pieces₀ pieces) (used : ∀ t ∈ tenants, ∃ p ∈ pieces, p.tenant = t)
    (second : h.spaces.second = .mature x) : x.Orderly h cs tenants := by
  have held := custody.held
  have laid := held.estate.laid
  have grid := held.estate.gridded x second
  have placed := laid.placed .second
  have positive := laid.positive .second (by decide)
  have sound := held.estate.supplied .second
  simp only [Spaces.space, second, Space.extent, Spaces.Sourced] at placed positive sound
  obtain ⟨lists, stocked, owned⟩ := held.estate.stocked
  refine ⟨⟨lists, owned, fun l listed => ?_, stocked.nodup laid held.estate.gridded, fun l listed cell member t inside => ?_⟩,
    grid.tables, fun b listed k inside a low high => ?_, fun t inside home => ?_, ?_⟩
  · obtain ⟨chain, cuts⟩ := stocked.free l listed
    refine ⟨chain, cuts.imp_right ?_⟩
    rintro ⟨y, second', rest⟩
    cases second.symm.trans second'
    exact rest
  · obtain ⟨p, there, rfl⟩ := used t inside
    exact (held.placed p there).outside (stocked.room_apart listed member (mem_map_of_mem there))
  · exact grid.cellOf_total placed sound positive listed inside low high
  · obtain ⟨p, there, rfl⟩ := used t inside
    obtain ⟨b, listed, k, small, room⟩ := held.cell there home second
    obtain ⟨cell, ok, start⟩ := held.cellOf there home second
    have fits := held.placed p there
    refine ⟨b, listed, k, small, room ▸ fits.low, room ▸ fits.high, cell, ok, room ▸ start, fun t' inside' differ => ?_⟩
    obtain ⟨q, there', rfl⟩ := used t' inside'
    have other : q ≠ p := fun same => differ (same ▸ rfl)
    exact (held.placed q there').outside (room ▸ held.apart there' there other)
  · intro b listed j inside b' listed' k inside' cell cell' start start' differ
    have other : (b, j) ≠ (b', k) := fun same => by
      cases same
      exact differ (Address.toNat_inj.mp (start.trans start'.symm))
    refine (custody.tracked.mature x second).table.index_ne ?_ ?_ ?_
    · exact start ▸ (grid.cell_within sound listed inside).1
    · exact start' ▸ (grid.cell_within sound listed' inside').1
    · rw [start, start']
      exact grid.cells_far sound listed inside listed' inside' other

/-- At every moment of a program, in the midst of a collection or between two, the mature store is in order. -/
theorem World.Reachable.store_orderly {w : World} {h : Heap} {cs : List Collector} {tenants : Set Tenant} {x : MarkSweepSpace}
    (reachable : w.Reachable) (moment : w.Moment h cs tenants) (second : h.spaces.second = .mature x) : x.Orderly h cs tenants := by
  obtain ⟨pieces, objects, sound⟩ := reachable.sound
  obtain ⟨pieces', custody, used⟩ := sound.moment moment
  exact .of_custody custody used second

/-- After the closure of the first program's collection the copy of the young object has a cell in the mature store. -/
theorem World.sample_store_orderly : ∃ x, (sample.rounds 19).2.spaces.second = .mature x ∧
    (∃ lists : List FreeList, (lists.flatMap (·.cells)).Nodup ∧ lists.map FreeList.key ~ (sample.rounds 19).2.spaces.stock ++
      ((Team.collectors (sample.rounds 19).1.team).flatMap Collector.keys ++ (sample.rounds 19).2.keys)) ∧
    ∃ b ∈ x.blocks, ∃ k < b.count, (b.cell k).lo ≤ 139637884518400 ∧ 139637884518400 + 1024 ≤ (b.cell k).hi := by
  have plan : (sample.rounds 19).2.spaces.plan = .generational := by decide +kernel
  cases second : (sample.rounds 19).2.spaces.second with
  | twin x =>
    rw [Spaces.plan, second] at plan
    cases plan
  | mature x =>
    have orderly := sample_reachable.store_orderly (.during sample_manned sample_closes sample_traced.holds) second
    have moved : (sample.rounds 19).2.fate ⟨youngAt, 1024, .first, true⟩ = some ⟨⟨139637884518400⟩, 1024, .second, true⟩ := by
      decide +kernel
    have evacuated : (sample.rounds 19).2.spaces.Evacuates .first :=
      show (sample.rounds 19).2.spaces.first.evacuating = true by decide +kernel
    have young : (⟨youngAt, 1024, .first, true⟩ : Tenant) ∈ sample.tenants := by simp [sample_tenants]
    obtain ⟨b, listed, k, inside, low, high, -⟩ := orderly.own _ (.inr ⟨_, young, evacuated, moved⟩) rfl
    obtain ⟨lists, owned, -, nodup, -⟩ := orderly.lists
    exact ⟨x, rfl, ⟨lists, nodup, owned⟩, b, listed, k, inside, low, high⟩

end TracingHeap

import TracingHeap.Proofs.Reclaiming

/-! The sweep of the mature store. In every block the cells that the collection has not marked become one free list, and
a block without a marked cell is given back. Marked cells are neither written to nor handed to anyone else. -/

namespace TracingHeap

open List Memory

namespace SideTable

variable {t t' : SideTable} {e : Extent} {width : EntryWidth} {log : Word} {start a : Address} {u : Unit}

theorem clear_index {bytes : Word} (ok : SideTable.clear start bytes t = .ok u t') : t'.index = t.index := by
  rcases clear_ok ok with ⟨-, rfl⟩ | ⟨-, -, -, -, rfl⟩ <;> rfl

/-- The entries of a block that starts with a page are cleared, and no others. -/
theorem Beside.entry_block (beside : t.Beside e width log) (grain : log = 4 ∨ log = 12)
    (low : e.start.toNat ≤ start.toNat) (page : (start.toNat - e.start.toNat) % 4096 = 0) (above : e.start.toNat ≤ a.toNat)
    (ok : SideTable.clear start SizeClass.blockBytes t = .ok u t') :
    t'.entry a = if start.toNat ≤ a.toNat ∧ a.toNat < start.toNat + 65536 then 0 else t.entry a := by
  have bytes : SizeClass.blockBytes.toNat = 65536 := rfl
  rcases grain with rfl | rfl
  · rw [beside.entry_clear (k := 4) rfl (by decide) low above ok, bytes]
    refine if_congr ?_ rfl rfl
    omega
  · rw [beside.entry_clear (k := 12) rfl (by decide) low above ok, bytes]
    refine if_congr ?_ rfl rfl
    omega

end SideTable

namespace MarkSweepSpace

variable {x y : MarkSweepSpace} {m m' : Memory} {start head head' : Address} {size : Word} {live live' n k : Nat}
  {cells : List Address}

/-! ### The cells of one block -/

/-- The start of a cell of a row. -/
def cellAt (start : Address) (size : Word) (k : Nat) : Address := start.plus (UInt64.ofNat k * size)

theorem toNat_cellAt (fits : start.toNat + k * size.toNat < 2 ^ 64) :
    (cellAt start size k).toNat = start.toNat + k * size.toNat := by
  have size_lt : k * size.toNat < 2 ^ 64 := by omega
  have number : (UInt64.ofNat k * size).toNat = k * size.toNat := by
    rw [UInt64.toNat_mul, UInt64.toNat_ofNat', Nat.mod_mul_mod]
    exact Nat.mod_eq_of_lt size_lt
  rw [cellAt, Address.toNat_plus (by rw [number]; exact fits), number]

/-- The collection that ends has marked a cell of the block. -/
def Spares (x : MarkSweepSpace) (b : Block) : Prop :=
  ∃ k < b.count, ∃ cell : Address, cell.toNat = (b.cell k).lo ∧ x.marks.entryByte cell = x.current

/-- Has the collection that ends marked a cell of a row? -/
def spares (x : MarkSweepSpace) (start : Address) (size : Word) (k : Nat) : Bool :=
  x.marks.entryByte (cellAt start size k) == x.current

/-- The first cells of a row that are not marked, in the order of their addresses. -/
def unmarked (x : MarkSweepSpace) (start : Address) (size : Word) (n : Nat) : List Address :=
  ((List.range n).filter fun k => !x.spares start size k).map (cellAt start size)

theorem mem_unmarked {cell : Address} :
    cell ∈ x.unmarked start size n ↔ ∃ k < n, x.spares start size k = false ∧ cell = cellAt start size k := by
  simp only [unmarked, mem_map, mem_filter, mem_range, Bool.not_eq_true']
  constructor
  · rintro ⟨k, ⟨small, spared⟩, rfl⟩
    exact ⟨k, small, spared, rfl⟩
  · rintro ⟨k, small, spared, rfl⟩
    exact ⟨k, ⟨small, spared⟩, rfl⟩

theorem unmarked_succ : x.unmarked start size (n + 1) =
    x.unmarked start size n ++ if x.spares start size n then [] else [cellAt start size n] := by
  rw [unmarked, range_succ, filter_append, map_append, ← unmarked]
  cases spared : x.spares start size n <;> simp [spared]

/-- Clearing the mark of a later cell changes nothing for the earlier ones. -/
theorem spares_put (beside : x.marks.Beside x.pages.extent .byte 4) (low : x.pages.extent.start.toNat ≤ start.toNat)
    (large : 16 ≤ size.toNat) (fits : start.toNat + n * size.toNat < 2 ^ 64) (value : Word) (small : k < n) :
    spares { x with marks := x.marks.put (cellAt start size n) value } start size k = x.spares start size k := by
  have below := Nat.mul_le_mul_right size.toNat (show k + 1 ≤ n from small)
  rw [Nat.add_mul] at below
  have here : (cellAt start size n).toNat = start.toNat + n * size.toNat := toNat_cellAt fits
  have there : (cellAt start size k).toNat = start.toNat + k * size.toNat := toNat_cellAt (by omega)
  have differ := beside.index_ne (a := cellAt start size n) (b := cellAt start size k) (by omega) (by omega) (by omega)
  simp only [spares, SideTable.entryByte, SideTable.entry_put, if_neg differ]

/-- What the sweep of the first cells of a row does. -/
structure RowSwept (x y : MarkSweepSpace) (m m' : Memory) (start : Address) (size : Word) (n : Nat) : Prop where
  same : y = { x with marks := y.marks }
  beside : y.marks.Beside x.pages.extent .byte 4
  index : y.marks.index = x.marks.index
  memory : ∀ i, (∀ cell ∈ x.unmarked start size n, cell.toNat / 8 ≠ i) → m'.word i = m.word i
  marks : ∀ a : Address, y.marks.entryByte a =
    if ∃ cell ∈ x.unmarked start size n, x.marks.index cell = x.marks.index a then 0 else x.marks.entryByte a

/-- The cells that are not marked are put in front of the list. -/
theorem sweepCells_ok (beside : x.marks.Beside x.pages.extent .byte 4) (low : x.pages.extent.start.toNat ≤ start.toNat)
    (positive : 0 < start.toNat) (large : 16 ≤ size.toNat) (fits : start.toNat + n * size.toNat < 2 ^ 64)
    (chain : Threaded m head cells) (above : ∀ cell ∈ cells, start.toNat + n * size.toNat ≤ cell.toNat)
    (ok : sweepCells start size head live n (x, m) = .ok (head', live') (y, m')) :
    x.RowSwept y m m' start size n ∧ Threaded m' head' (x.unmarked start size n ++ cells) ∧
      live' = live + (List.range n).countP (x.spares start size) := by
  induction n generalizing x m head live cells with
  | zero =>
    obtain ⟨same, rest⟩ := Step.pure_ok.mp ok
    cases same
    cases rest
    exact ⟨⟨rfl, beside, rfl, fun _ _ => rfl, fun a => by rw [if_neg (by rintro ⟨_, member, -⟩; exact absurd member not_mem_nil)]⟩,
      chain, rfl⟩
  | succ n ih =>
    rw [Nat.add_mul] at fits above
    have place : (cellAt start size n).toNat = start.toNat + n * size.toNat := toNat_cellAt (by omega)
    simp only [sweepCells, Step.get_bind, Step.bind_ok, Step.lift_ok] at ok
    obtain ⟨mark, _, ⟨loaded, rfl⟩, ok⟩ := ok
    obtain ⟨-, -, rfl⟩ := SideTable.loadByte_ok loaded
    change (if x.spares start size n = true then _ else _ : Step _ _) _ = _ at ok
    rw [Step.ite_step] at ok
    rw [range_succ, countP_append]
    cases spared : x.spares start size n with
    | true =>
      rw [spared, if_pos rfl] at ok
      obtain ⟨swept, chain', count⟩ := ih beside low (by omega) chain (fun cell member => by have := above cell member; omega) ok
      have same : x.unmarked start size (n + 1) = x.unmarked start size n := by
        rw [unmarked_succ, spared, if_pos rfl, append_nil]
      refine ⟨⟨swept.same, swept.beside, swept.index, by rw [same]; exact swept.memory, by rw [same]; exact swept.marks⟩,
        by rw [same]; exact chain', ?_⟩
      rw [count, countP_singleton, spared, if_pos rfl]
      omega
    | false =>
      rw [spared, if_neg Bool.false_ne_true] at ok
      simp only [Step.bind_ok, Step.on_ok, Focus.comp, Focus.fst, marksPart, Step.modify_ok, Prod.exists] at ok
      obtain ⟨_, x₁, m₁, ⟨table, stored, same⟩, _, _, _, written, ok⟩ := ok
      obtain ⟨-, -, rfl⟩ := SideTable.store_ok stored
      cases same
      cases written
      -- The cell becomes the first one of the list; no cell of the list is written to.
      have proper : cellAt start size n ≠ .null := by
        rw [← Address.toNat_pos]
        omega
      have chain₁ : Threaded (m.store (cellAt start size n) head.word) (cellAt start size n) (cellAt start size n :: cells) := by
        refine ⟨rfl, proper, ?_⟩
        rw [Memory.word_store, if_pos rfl]
        refine chain.frame fun cell member => ?_
        have := above cell member
        rw [Memory.word_store, if_neg (by omega)]
      obtain ⟨swept, chain', count⟩ := ih (x := { x with marks := x.marks.put (cellAt start size n) 0 })
        (beside.put _ _) low (by omega) chain₁ (fun cell member => by
        rcases mem_cons.mp member with rfl | member
        · omega
        · have := above cell member
          omega) ok
      have earlier : ∀ k ∈ List.range n, spares { x with marks := x.marks.put (cellAt start size n) 0 } start size k =
          x.spares start size k := fun k member => spares_put beside low large (by omega) 0 (mem_range.mp member)
      have kept : unmarked { x with marks := x.marks.put (cellAt start size n) 0 } start size n = x.unmarked start size n := by
        rw [unmarked, unmarked, filter_congr fun k member => congrArg _ (earlier k member)]
      have same : x.unmarked start size (n + 1) = x.unmarked start size n ++ [cellAt start size n] := by
        rw [unmarked_succ, spared]
        rfl
      rw [kept] at chain'
      refine ⟨⟨?_, swept.beside, swept.index, fun i other => ?_, fun a => ?_⟩, ?_, ?_⟩
      · rw [swept.same]
      · rw [same] at other
        rw [swept.memory i fun cell member => other cell (mem_append_left _ (kept ▸ member)), Memory.word_store,
          if_neg (other _ (mem_append_right _ mem_cons_self))]
      · have cleared := SideTable.entryByte_put beside.wide (cellAt start size n) a 0
        have before : y.marks.entryByte a = if ∃ cell ∈ x.unmarked start size n, x.marks.index cell = x.marks.index a then 0
            else (x.marks.put (cellAt start size n) 0).entryByte a := by
          have entry := swept.marks a
          rw [kept] at entry
          exact entry
        rw [before, same]
        by_cases old : ∃ cell ∈ x.unmarked start size n, x.marks.index cell = x.marks.index a
        · obtain ⟨cell, member, found⟩ := old
          rw [if_pos ⟨cell, member, found⟩, if_pos ⟨cell, mem_append_left _ member, found⟩]
        · rw [if_neg old]
          refine cleared.trans ?_
          by_cases new : x.marks.index (cellAt start size n) = x.marks.index a
          · rw [if_pos new, if_pos ⟨_, mem_append_right _ mem_cons_self, new⟩]
          · rw [if_neg new, if_neg]
            rintro ⟨cell, member, found⟩
            rcases mem_append.mp member with member | member
            · exact old ⟨cell, member, found⟩
            · exact new (mem_singleton.mp member ▸ found)
      · rw [same, append_assoc]
        exact chain'
      · rw [count, countP_singleton, spared, countP_congr fun k member => by rw [earlier k member]]
        rfl

/-! ### Blocks -/

/-- A block is a live run of pages. -/
theorem Gridded.run (gridded : x.Gridded) (sound : x.pages.Sound) {b : Block} (member : b ∈ x.blocks) :
    ∃ run ∈ x.pages.map.live, x.pages.spanOf run = b.span ∧ b.span.Within x.pages.extent.span ∧
      b.start.toNat = x.pages.extent.start.toNat + 4096 * run.first := by
  obtain ⟨run, live, pages, start⟩ := gridded.live b member
  have same : x.pages.spanOf run = b.span := by
    simp only [Pages.Runs.spanOf] at start
    simp only [Pages.Runs.spanOf, Block.span, pages, start, Span.mk.injEq, true_and]
    omega
  exact ⟨run, live, same, same ▸ sound.spanOf_within live, start⟩

theorem Gridded.start_ne (gridded : x.Gridded) {b c : Block} (member : b ∈ x.blocks) (member' : c ∈ x.blocks)
    (differ : b ≠ c) : b.start ≠ c.start := by
  have : Std.Symm fun b c : Block => b.start ≠ c.start := ⟨fun _ _ => Ne.symm⟩
  exact gridded.distinct.forall member member' differ

/-- Blocks share no memory. -/
theorem Gridded.apart (gridded : x.Gridded) (sound : x.pages.Sound) {b c : Block} (member : b ∈ x.blocks)
    (member' : c ∈ x.blocks) (differ : b ≠ c) : b.span.Apart c.span := by
  obtain ⟨run, live, span, -, start⟩ := gridded.run sound member
  obtain ⟨run', live', span', -, start'⟩ := gridded.run sound member'
  have other : run ≠ run' := fun same => gridded.start_ne member member' differ (Address.toNat_inj.mp (by rw [start, start', same]))
  have : Std.Symm Pages.Run.Apart := ⟨fun _ _ apart => Pages.Run.Apart.symm apart⟩
  rw [← span, ← span']
  exact Pages.Runs.spanOf_apart ((sound.apart.sublist (sublist_append_left _ _)).forall live live' other)

theorem discard_ok {u : Unit} (ok : discard start (x, m) = .ok u (y, m')) :
    SideTable.clear start SizeClass.blockBytes x.marks = .ok () y.marks ∧
      SideTable.clear start SizeClass.blockBytes x.blockStarts = .ok () y.blockStarts ∧
      SideTable.clear start SizeClass.blockBytes x.blockClasses = .ok () y.blockClasses ∧
      (∃ pages, Pages.Runs.release start (x.pages, m) = .ok pages (y.pages, m')) ∧
      y = { x with
        pages := y.pages
        marks := y.marks
        blockStarts := y.blockStarts
        blockClasses := y.blockClasses } := by
  simp only [discard, Step.bind_ok, Step.on_ok, Step.onBoth_ok, Focus.comp, Focus.fst, Focus.snd, marksPart, blockStartsPart,
    blockClassesPart, pagesPart, Step.pure_ok, Prod.exists] at ok
  obtain ⟨_, _, _, ⟨marks, first, same⟩, _, _, _, ⟨starts, second, same₂⟩, _, _, _, ⟨classes, third, same₃⟩, pages, _, _,
    ⟨runs, m₁, released, same₄⟩, -, same₅⟩ := ok
  cases same
  cases same₂
  cases same₃
  cases same₄
  cases same₅
  exact ⟨first, second, third, ⟨pages, released⟩, rfl⟩

end MarkSweepSpace

namespace Spaces

variable {s : Spaces} {x z z' : MarkSweepSpace} {m m₁ m₂ : Memory} {rooms buffers : List (SpaceId × Span)}
  {kept rest todo : List Block} {b : Block} {lists : List FreeList} {size : Word}

/-! ### The sweep of all blocks -/

/-- The spaces while the mature store has certain blocks. -/
def sweeping (s : Spaces) (z : MarkSweepSpace) (blocks : List Block) : Spaces :=
  { s with second := .mature { z with blocks } }

/-- In the middle of a sweep: the blocks in `kept` have been swept, and those in `todo` have not. -/
structure Sweep (s : Spaces) (x : MarkSweepSpace) (m : Memory) (rooms buffers : List (SpaceId × Span)) (kept todo : List Block)
    (lists : List FreeList) (z : MarkSweepSpace) (m₁ : Memory) : Prop where
  same : z = { x with
    pages := z.pages
    marks := z.marks
    blockStarts := z.blockStarts
    blockClasses := z.blockClasses
    available := z.available
    blocks := z.blocks }
  extent : z.pages.extent = x.pages.extent
  supplied : (s.sweeping z (kept ++ todo)).Supplied m₁
  gridded : MarkSweepSpace.Gridded { z with blocks := kept ++ todo }
  stocked : (s.sweeping z (kept ++ todo)).Stocked m₁ rooms buffers lists
  owned : lists.map FreeList.key ~ (s.sweeping z (kept ++ todo)).stock
  free : ∀ l ∈ lists, ∀ cell ∈ l.cells, ∃ b ∈ kept, ∃ k < b.count, l.spanOf cell = b.cell k
  agree : ∀ h ∈ rooms, AgreeOn m m₁ h.2
  table : z.marks.Beside x.pages.extent .byte 4
  marked : ∀ h ∈ rooms, h.1 = .second → ∀ cell : Address, cell.toNat = h.2.lo → z.marks.entryByte cell = x.current
  entries : ∀ a : Address, x.pages.extent.span.lo ≤ a.toNat → a.toNat < x.pages.extent.span.hi →
    z.marks.entryByte a = 0 ∨ ∃ b ∈ kept ++ todo, ∃ k < b.count, ∃ cell : Address, cell.toNat = (b.cell k).lo ∧
      z.marks.index cell = z.marks.index a ∧ (z.marks.entryByte a = x.current ∨ b ∈ todo ∧ z.marks.entryByte a = 3 - x.current)
  level : MarkSweepSpace.excess { z with blocks := kept ++ todo } = x.excess
  noted : ∀ a : Address, x.pages.extent.start.toNat ≤ a.toNat → z.marks.entryByte a = x.current → x.marks.entryByte a = x.current
  spared : ∀ b ∈ kept, x.Spares b

theorem sweeping_space {blocks : List Block} {id : SpaceId} (other : id ≠ .second) :
    (s.sweeping z blocks).space id = s.space id := by
  cases id with
  | second => exact absurd rfl other
  | first | immortal | large => rfl

theorem sweeping_extent {blocks : List Block} (second : s.second = .mature x) (extent : z.pages.extent = x.pages.extent)
    (id : SpaceId) : ((s.sweeping z blocks).space id).extent = (s.space id).extent := by
  by_cases here : id = .second
  · rw [here]
    simp only [sweeping, space, second, Space.extent]
    exact extent
  · rw [sweeping_space here]

theorem sweeping_bumpable {blocks blocks' : List Block} (id : SpaceId) :
    (s.sweeping z blocks).Bumpable id ↔ (s.sweeping z' blocks').Bumpable id := by
  cases id <;> exact Iff.rfl

theorem sweeping_houses {blocks blocks' : List Block} {id : SpaceId} {r : Span}
    (cell : id = .second → ∀ c ∈ blocks, ∀ k < c.count, r = c.cell k → c ∈ blocks')
    (housed : (s.sweeping z blocks).Houses id r) : (s.sweeping z' blocks').Houses id r := by
  cases id with
  | second =>
    obtain ⟨sizeClass, c, listed, known, k, inside, span⟩ := housed
    exact ⟨sizeClass, c, cell rfl c listed k inside span, known, k, inside, span⟩
  | first | immortal | large => exact housed

/-! What is known when the next block is about to be swept. -/

section Next

variable (sweep : s.Sweep x m rooms buffers kept (b :: rest) lists z m₁) (laid : s.LaidOut) (second : s.second = .mature x)
  (sized : SizeClass.sizeOf? b.sizeClass = some size)

include sweep

theorem Sweep.current : z.current = x.current := by
  rw [sweep.same]

include second in
theorem Sweep.run : ∃ run ∈ z.pages.map.live, z.pages.spanOf run = b.span ∧ b.span.Within (s.space .second).extent.span ∧
    b.start.toNat = x.pages.extent.start.toNat + 4096 * run.first := by
  simp only [space, second, Space.extent]
  rw [← sweep.extent]
  exact sweep.gridded.run (sweep.supplied .second) (mem_append_right _ mem_cons_self)

include laid second sized in
/-- The start of a cell of the next block. -/
theorem Sweep.cellAt {k : Nat} (inside : k < b.count) :
    (MarkSweepSpace.cellAt b.start size k).toNat = (b.cell k).lo := by
  obtain ⟨-, bytes⟩ := SizeClass.sizeOf_ok sized
  obtain ⟨run, -, -, within, -⟩ := sweep.run second
  have fits := (laid.placed .second).fits
  have cell := b.cell_within inside
  simp only [Span.Within, Extent.span, Span.ofBytes, Block.span, Block.cell, Block.bytes, Nat.add_mul] at within cell
  rw [MarkSweepSpace.toNat_cellAt (by rw [bytes]; omega), bytes]
  rfl

include laid second sized in
/-- Whoever holds memory holds it in another space, in another block, or in a marked cell of the next block. -/
theorem Sweep.elsewhere : ∀ h ∈ rooms ++ buffers ++ lists.flatMap (·.spans), (h.1 ≠ .second ∧ h.2.Apart b.span) ∨
    (h.1 = .second ∧ ∃ c ∈ kept ++ rest, c ≠ b ∧ ∃ k < c.count, h.2 = c.cell k) ∨
    h.1 = .second ∧ ∃ k < b.count, h.2 = b.cell k ∧ z.spares b.start size k = true := by
  have outside : ∀ h : SpaceId × Span, h.1 ≠ .second → (s.sweeping z (kept ++ b :: rest)).Houses h.1 h.2 →
      h.2.Apart b.span := by
    intro h other housed
    have within := sweep.supplied.issued_within (housed.issued fun _ same => by cases same; exact sweep.gridded)
    obtain ⟨_, -, -, here, -⟩ := sweep.run second
    rw [sweeping_space other] at within
    exact (laid.apart _ _ other).mono within here
  intro h member
  rcases mem_append.mp member with member | member
  · by_cases other : h.1 = .second
    · refine .inr ?_
      rcases mem_append.mp member with room | buffer
      · have housed := sweep.stocked.housed h room
        rw [other] at housed
        obtain ⟨_, c, listed, -, k, inside, span⟩ := housed
        by_cases same : c = b
        · subst same
          refine .inr ⟨other, k, inside, span, ?_⟩
          rw [MarkSweepSpace.spares, sweep.current, beq_iff_eq]
          exact sweep.marked h room other _ (by rw [sweep.cellAt laid second sized inside, span])
        · refine .inl ⟨other, c, ?_, same, k, inside, span⟩
          exact (mem_append.mp listed).elim (mem_append_left _) fun later =>
            mem_append_right _ ((mem_cons.mp later).resolve_left same)
      · have handed := (sweep.stocked.ready h buffer).1
        rw [other] at handed
        exact handed.elim
    · refine .inl ⟨other, outside h other ?_⟩
      rcases mem_append.mp member with room | buffer
      · exact sweep.stocked.housed h room
      · exact (sweep.stocked.ready h buffer).2.1
  · obtain ⟨l, listed, inner⟩ := mem_flatMap.mp member
    obtain ⟨cell, free, rfl⟩ := mem_map.mp inner
    obtain ⟨c, early, k, inside, span⟩ := sweep.free l listed cell free
    refine .inr (.inl ⟨rfl, c, mem_append_left _ early, ?_, k, inside, span⟩)
    rintro rfl
    exact (pairwise_append.mp sweep.gridded.distinct).2.2 c early c mem_cons_self rfl

include laid second sized in
/-- Nobody holds a cell of the next block that is not marked. -/
theorem Sweep.unheld {h : SpaceId × Span} (member : h ∈ rooms ++ buffers ++ lists.flatMap (·.spans)) {k : Nat}
    (inside : k < b.count) (spared : z.spares b.start size k = false) : h.2.Apart (b.cell k) := by
  have blocks := sweep.gridded
  rcases sweep.elsewhere laid second sized h member with ⟨-, apart⟩ | ⟨-, c, listed, differ, j, small, span⟩ | ⟨-, j, small, span, marked⟩
  · exact apart.mono (.refl _) (b.cell_within inside)
  · rw [span]
    refine (blocks.apart (sweep.supplied .second) (b := c) (c := b) ?_ (mem_append_right _ mem_cons_self) differ).mono
      (c.cell_within small) (b.cell_within inside)
    exact (mem_append.mp listed).elim (mem_append_left _) fun later => mem_append_right _ (mem_cons_of_mem _ later)
  · rw [span]
    refine b.cell_apart ?_
    rintro rfl
    rw [marked] at spared
    cases spared

include laid second in
/-- What is held stays held as long as the cells are there. -/
theorem Sweep.carry {blocks : List Block} (agree : ∀ h ∈ rooms ++ buffers ++ lists.flatMap (·.spans), AgreeOn m₁ m₂ h.2)
    (there : ∀ h ∈ rooms ++ buffers ++ lists.flatMap (·.spans), h.1 = .second →
      ∀ c ∈ kept ++ b :: rest, ∀ k < c.count, h.2 = c.cell k → c ∈ blocks) :
    (s.sweeping z' blocks).Stocked m₂ rooms buffers lists := by
  refine sweep.stocked.frame (laid.congr (sweeping_extent second sweep.extent)) (fun _ same => by cases same; exact sweep.gridded)
    agree (fun h member housed => ?_) (fun id handed => (sweeping_bumpable id).mp handed) fun l member cuts => cuts.imp ?_
  · exact sweeping_houses (fun second c listed k inside span => there h (mem_append_left _ member) second c listed k inside span)
      housed
  · rintro _ ⟨⟩
    refine ⟨_, rfl, fun c listed ⟨cell, free, k, inside, span⟩ => ?_⟩
    exact there (.second, l.spanOf cell) (mem_append_right _ (mem_flatMap.mpr ⟨l, member, mem_map_of_mem free⟩))
      rfl c listed k inside span

include laid second sized in
/-- The notes about memory that shares nothing with the unmarked cells stay. -/
theorem Sweep.untouched {y : MarkSweepSpace} (swept : z.RowSwept y m₁ m₂ b.start size b.count) {a : Address} {r : Span}
    (start : a.toNat = r.lo) (long : r.lo + 16 ≤ r.hi) (low : x.pages.extent.start.toNat ≤ r.lo)
    (apart : ∀ k < b.count, z.spares b.start size k = false → r.Apart (b.cell k)) :
    y.marks.entryByte a = z.marks.entryByte a := by
  rw [swept.marks a, if_neg]
  rintro ⟨_, member, found⟩
  obtain ⟨k, inside, spared, rfl⟩ := MarkSweepSpace.mem_unmarked.mp member
  have place := sweep.cellAt laid second sized inside
  obtain ⟨_, -, -, -, above⟩ := sweep.run second
  have least := (SizeClass.bytesOf_facts (SizeClass.sizeOf_ok sized).1).1
  have away := apart k inside spared
  simp only [Span.Apart, Block.cell, Block.bytes, Nat.add_mul] at away place
  exact sweep.table.index_ne (by omega) (by omega) (by omega) found

include laid second sized in
/-- The cells of the next block were swept. -/
theorem Sweep.row {y : MarkSweepSpace} {head : Address} {live : Nat} (proper : x.current ≠ 0)
    (ok : MarkSweepSpace.sweepCells b.start size .null 0 (SizeClass.cells size) (z, m₁) = .ok (head, live) (y, m₂)) :
    s.Sweep x m rooms buffers kept (b :: rest) lists y m₂ ∧ Threaded m₂ head (y.unmarked b.start size b.count) ∧
      live = (List.range b.count).countP (y.spares b.start size) ∧
      ∀ k < b.count, ∀ cell : Address, cell.toNat = (b.cell k).lo →
        y.marks.entryByte cell = 0 ∨ y.marks.entryByte cell = x.current := by
  obtain ⟨known, bytes⟩ := SizeClass.sizeOf_ok sized
  obtain ⟨least, -, words⟩ := SizeClass.bytesOf_facts known
  obtain ⟨run, -, -, within, above⟩ := sweep.run second
  have placed := laid.placed .second
  have positive := laid.positive .second (by decide)
  simp only [space, second, Space.extent] at placed positive within
  have page := placed.start
  have fits := placed.fits
  have number : SizeClass.cells size = b.count := by
    rw [SizeClass.cells, UInt64.toNat_div, bytes]
    rfl
  have room : b.count * size.toNat ≤ 65536 := by
    rw [bytes]
    exact Nat.div_mul_le_self ..
  simp only [Span.Within, Extent.span, Span.ofBytes, Block.span] at within
  rw [number] at ok
  have empty : Threaded m₁ .null [] := rfl
  obtain ⟨swept, chain, count⟩ := MarkSweepSpace.sweepCells_ok (x := z) (sweep.extent ▸ sweep.table)
    (by rw [sweep.extent]; omega) (by omega) (by omega) (by omega) empty (fun _ member => absurd member not_mem_nil) ok
  obtain ⟨marks, rfl⟩ : ∃ marks, y = { z with marks } := ⟨_, swept.same⟩
  have place : ∀ k < b.count, (MarkSweepSpace.cellAt b.start size k).toNat = (b.cell k).lo ∧ (b.cell k).lo % 8 = 0 ∧
      (b.cell k).lo + 16 ≤ (b.cell k).hi ∧ x.pages.extent.start.toNat ≤ (b.cell k).lo := by
    intro k inside
    have even : k * b.bytes % 8 = 0 := by
      rw [Nat.mul_mod, Block.bytes, words, Nat.mul_zero]
    refine ⟨sweep.cellAt laid second sized inside, ?_, ?_, ?_⟩
    all_goals simp only [Block.cell, Nat.add_mul, Block.bytes] at even ⊢; omega
  -- Only unmarked cells are written to.
  have calm : ∀ r : Span, (∀ k < b.count, z.spares b.start size k = false → r.Apart (b.cell k)) → AgreeOn m₁ m₂ r := by
    intro r apart i low high
    refine swept.memory i fun cell member same => ?_
    obtain ⟨k, inside, spared, rfl⟩ := MarkSweepSpace.mem_unmarked.mp member
    obtain ⟨start, even, long, -⟩ := place k inside
    have away := apart k inside spared
    unfold Span.Apart at away
    omega
  have off : AgreeOff m₁ m₂ (s.space .second).extent.span := by
    intro i other
    refine swept.memory i fun cell member same => other ?_
    obtain ⟨k, inside, spared, rfl⟩ := MarkSweepSpace.mem_unmarked.mp member
    obtain ⟨start, even, long, low⟩ := place k inside
    have inner := b.cell_within inside
    simp only [Span.Within, Block.span] at inner
    simp only [space, second, Space.extent, Extent.span, Span.ofBytes]
    omega
  have spares : ∀ k ∈ List.range b.count, MarkSweepSpace.spares { z with marks } b.start size k = z.spares b.start size k := by
    intro k member
    have inside := mem_range.mp member
    obtain ⟨start, -, long, low⟩ := place k inside
    cases spared : z.spares b.start size k with
    | true =>
      rw [← spared]
      simp only [MarkSweepSpace.spares]
      rw [sweep.untouched laid second sized swept start long low fun k' _ unmarked => b.cell_apart fun same => by
        rw [same, unmarked] at spared
        cases spared]
    | false =>
      have cleared := swept.marks (MarkSweepSpace.cellAt b.start size k)
      rw [if_pos ⟨_, MarkSweepSpace.mem_unmarked.mpr ⟨k, inside, spared, rfl⟩, rfl⟩] at cleared
      simp only [MarkSweepSpace.spares]
      rw [cleared, sweep.current, beq_eq_false_iff_ne]
      exact Ne.symm proper
  have listed : MarkSweepSpace.unmarked { z with marks } b.start size b.count = z.unmarked b.start size b.count := by
    rw [MarkSweepSpace.unmarked, MarkSweepSpace.unmarked, filter_congr fun k member => congrArg _ (spares k member)]
  have agree : ∀ h ∈ rooms ++ buffers ++ lists.flatMap (·.spans), AgreeOn m₁ m₂ h.2 := fun h member =>
    calm h.2 fun k inside spared => sweep.unheld laid second sized member inside spared
  refine ⟨⟨?_, sweep.extent, ?_, ?_, ?_, sweep.owned, sweep.free, ?_, ?_, ?_, ?_, sweep.level, ?_, sweep.spared⟩, ?_, ?_, ?_⟩
  · exact congrArg (fun w : MarkSweepSpace => { w with marks }) sweep.same
  · refine @Supplied.step _ _ _ _ .second (laid.congr (sweeping_extent second sweep.extent)) sweep.supplied
      (fun id other => ?_) (sweep.supplied .second) ?_
    · rw [sweeping_space other, sweeping_space other]
    · rw [sweeping_extent second sweep.extent]
      exact off
  · have grid := sweep.gridded
    exact ⟨grid.classes, grid.live, grid.distinct, grid.tables, grid.starts, grid.classNumbers, grid.heads⟩
  · exact sweep.carry laid second agree fun _ _ _ _ listed _ _ _ => listed
  · exact fun h member => (sweep.agree h member).trans (agree h (mem_append_left _ (mem_append_left _ member)))
  · rw [← sweep.extent]
    exact swept.beside
  · intro h member home cell start
    have housed := sweep.stocked.housed h member
    have gridded : (s.sweeping z (kept ++ b :: rest)).Gridded := fun _ same => by cases same; exact sweep.gridded
    have inner := sweep.supplied.issued_within (housed.issued gridded)
    rw [sweeping_extent second sweep.extent, home] at inner
    simp only [space, second, Space.extent, Span.Within, Extent.span, Span.ofBytes] at inner
    rw [home] at housed
    obtain ⟨sizeClass, found⟩ := housed
    obtain ⟨-, known', long⟩ := cell_whole sweep.gridded (by simp only [sweep.extent]; exact placed) found
    have := (SizeClass.bytesOf_facts known').1
    rw [sweep.untouched laid second sized swept start (by omega) inner.1 fun k inside spared =>
      sweep.unheld laid second sized (mem_append_left _ (mem_append_left _ member)) inside spared]
    exact sweep.marked h member home cell start
  · intro a low high
    have entry := swept.marks a
    simp only [swept.index]
    split at entry
    · exact .inl entry
    · rw [entry]
      exact sweep.entries a low high
  · intro a low marked
    have entry := swept.marks a
    split at entry
    · exact absurd (marked.symm.trans entry) proper
    · exact sweep.noted a low (entry.symm.trans marked)
  · rw [listed, ← append_nil (z.unmarked b.start size b.count)]
    exact chain
  · rw [count, Nat.zero_add]
    exact (countP_congr fun k member => by rw [spares k member]).symm
  · intro k inside cell start
    obtain rfl : cell = MarkSweepSpace.cellAt b.start size k := Address.toNat_inj.mp (by rw [start, (place k inside).1])
    cases spared : z.spares b.start size k with
    | true =>
      have same := spares k (mem_range.mpr inside)
      rw [spared, MarkSweepSpace.spares, beq_iff_eq] at same
      exact .inr (same.trans sweep.current)
    | false =>
      refine .inl ?_
      rw [swept.marks, if_pos ⟨_, MarkSweepSpace.mem_unmarked.mpr ⟨k, inside, spared, rfl⟩, rfl⟩]

/-- A block is kept once no cell of it has an old mark. -/
theorem Sweep.pass (clean : ∀ k < b.count, ∀ cell : Address, cell.toNat = (b.cell k).lo →
    z.marks.entryByte cell = 0 ∨ z.marks.entryByte cell = x.current) (spares : x.Spares b) :
    s.Sweep x m rooms buffers (kept ++ [b]) rest lists z m₁ := by
  have blocks : kept ++ [b] ++ rest = kept ++ b :: rest := by rw [append_assoc, singleton_append]
  refine ⟨sweep.same, sweep.extent, ?_, ?_, ?_, ?_, fun l listed cell free => ?_, sweep.agree, sweep.table, sweep.marked,
    fun a low high => ?_, ?_, sweep.noted, forall_mem_append.mpr ⟨sweep.spared, forall_mem_singleton.mpr spares⟩⟩
  · rw [blocks]
    exact sweep.supplied
  · rw [blocks]
    exact sweep.gridded
  · rw [blocks]
    exact sweep.stocked
  · rw [blocks]
    exact sweep.owned
  · obtain ⟨c, early, found⟩ := sweep.free l listed cell free
    exact ⟨c, mem_append_left _ early, found⟩
  · rw [blocks]
    rcases sweep.entries a low high with none_there | ⟨c, listed, k, inside, cell, start, same, value⟩
    · exact .inl none_there
    · have entry : z.marks.entryByte a = z.marks.entryByte cell := by
        rw [SideTable.entryByte, SideTable.entryByte, SideTable.entry, SideTable.entry, same]
      by_cases here : c = b
      · subst here
        exact (clean k inside cell start).imp (entry.trans ·) fun marked =>
          ⟨c, listed, k, inside, cell, start, same, .inl (entry.trans marked)⟩
      · exact .inr ⟨c, listed, k, inside, cell, start, same, value.imp_right fun other =>
          ⟨(mem_cons.mp other.1).resolve_left here, other.2⟩⟩
  · rw [blocks]
    exact sweep.level

include laid second sized in
/-- A block without a marked cell is given back. -/
theorem Sweep.discard {u : Unit} (proper : x.current ≠ 0) (unmarked : ∀ k < b.count, z.spares b.start size k = false)
    (ok : MarkSweepSpace.discard b.start (z, m₁) = .ok u (z', m₂)) : s.Sweep x m rooms buffers kept rest lists z' m₂ := by
  obtain ⟨run, live, span, within, above⟩ := sweep.run second
  have placed := laid.placed .second
  simp only [space, second, Space.extent] at placed within
  have fits := placed.fits
  have sound : z.pages.Sound := sweep.supplied .second
  have grid := sweep.gridded
  obtain ⟨marks, starts, classes, ⟨pages, released⟩, same⟩ := MarkSweepSpace.discard_ok ok
  obtain ⟨run', live', -, first, length, extent, sound', perm, agree⟩ :=
    Pages.Runs.release_ok (by rw [sweep.extent]; exact placed) sound released
  -- The run that was given back is the one of the block.
  obtain rfl : run' = run := by
    refine Decidable.byContradiction fun other => ?_
    have : Std.Symm Pages.Run.Apart := ⟨fun _ _ apart => Pages.Run.Apart.symm apart⟩
    have apart := (sound.apart.sublist (sublist_append_left _ _)).forall live' live other
    have proper := sound.proper run (mem_append_left _ live)
    have proper' := sound.proper run' (mem_append_left _ live')
    rw [sweep.extent] at first
    unfold Pages.Run.Apart at apart
    unfold Pages.Run.Proper at proper proper'
    omega
  rw [span] at agree
  have page : (b.start.toNat - x.pages.extent.start.toNat) % 4096 = 0 := by omega
  have cleared : ∀ a : Address, x.pages.extent.start.toNat ≤ a.toNat → z'.marks.entryByte a =
      if b.start.toNat ≤ a.toNat ∧ a.toNat < b.start.toNat + 65536 then 0 else z.marks.entryByte a := by
    intro a low
    rw [SideTable.entryByte, sweep.table.entry_block (.inl rfl) (by omega) page low marks]
    split <;> rfl
  have elsewhere : ∀ h ∈ rooms ++ buffers ++ lists.flatMap (·.spans), h.2.Apart b.span ∧
      (h.1 = .second → ∃ c ∈ kept ++ rest, c ≠ b ∧ ∃ k < c.count, h.2 = c.cell k) := by
    intro h member
    rcases sweep.elsewhere laid second sized h member with ⟨other, apart⟩ | ⟨-, c, listed, differ, k, inside, cell⟩ | ⟨-, k, inside, -, marked⟩
    · exact ⟨apart, fun home => absurd home other⟩
    · refine ⟨?_, fun _ => ⟨c, listed, differ, k, inside, cell⟩⟩
      rw [cell]
      refine (grid.apart sound (b := c) (c := b) ?_ (mem_append_right _ mem_cons_self) differ).mono (c.cell_within inside) (.refl _)
      exact (mem_append.mp listed).elim (mem_append_left _) fun later => mem_append_right _ (mem_cons_of_mem _ later)
    · rw [unmarked k inside] at marked
      cases marked
  have others : ∀ c ∈ kept ++ rest, c ∈ kept ++ b :: rest ∧ c ≠ b := by
    obtain ⟨-, later, between⟩ := pairwise_append.mp grid.distinct
    intro c listed
    rcases mem_append.mp listed with early | late
    · exact ⟨mem_append_left _ early, fun same => between c early b mem_cons_self (by rw [same])⟩
    · exact ⟨mem_append_right _ (mem_cons_of_mem _ late), fun same => (pairwise_cons.mp later).1 c late (by rw [same])⟩
  have long : ∀ c ∈ kept ++ b :: rest, ∀ k, (c.cell k).lo + 16 ≤ (c.cell k).hi := by
    intro c listed k
    have least := (SizeClass.bytesOf_facts (grid.classes c listed)).1
    simp only [Block.cell, Block.bytes, Nat.add_mul]
    omega
  refine ⟨?_, extent.trans sweep.extent, ?_, ?_, ?_, ?_, sweep.free, ?_, ?_, ?_, ?_, ?_, ?_, sweep.spared⟩
  · rw [same]
    exact congrArg (fun w : MarkSweepSpace => { w with
      pages := z'.pages, marks := z'.marks, blockStarts := z'.blockStarts, blockClasses := z'.blockClasses }) sweep.same
  · refine @Supplied.step _ _ _ _ .second (laid.congr (sweeping_extent second sweep.extent)) sweep.supplied
      (fun id other => ?_) sound' (agree.mono ?_)
    · rw [sweeping_space other, sweeping_space other]
    · rw [sweeping_extent second sweep.extent]
      simp only [space, second, Space.extent]
      exact within
  · refine ⟨fun c listed => grid.classes c (others c listed).1, fun c listed => ?_, ?_, fun c listed a low high => ?_, ?_, ?_, ?_⟩
    · obtain ⟨old, oldLive, oldPages, oldStart⟩ := grid.live c (others c listed).1
      refine ⟨old, (mem_cons.mp (perm.mem_iff.mp oldLive)).resolve_left ?_, oldPages, ?_⟩
      · rintro rfl
        refine grid.start_ne (others c listed).1 (mem_append_right _ mem_cons_self) (others c listed).2 (Address.toNat_inj.mp ?_)
        rw [oldStart, above, Pages.Runs.spanOf, sweep.extent]
      · rw [oldStart, Pages.Runs.spanOf, Pages.Runs.spanOf, extent]
    · exact grid.distinct.sublist ((Sublist.refl kept).append (sublist_cons_self b rest))
    · obtain ⟨_, _, _, inner, _⟩ := grid.run sound (others c listed).1
      have apart := grid.apart sound (others c listed).1 (mem_append_right _ mem_cons_self) (others c listed).2
      obtain ⟨old, old'⟩ := grid.tables c (others c listed).1 a low high
      simp only [Span.Apart, Block.span, Span.Within, Extent.span, Span.ofBytes, sweep.extent] at apart low high inner
      have start := grid.starts
      have number := grid.classNumbers
      simp only [sweep.extent] at start number
      refine ⟨?_, ?_⟩
      · rw [start.entry_block (.inr rfl) (by omega) page (by omega) starts, if_neg (by omega)]
        exact old
      · rw [number.entry_block (.inr rfl) (by omega) page (by omega) classes, if_neg (by omega)]
        exact old'
    · exact extent ▸ grid.starts.clear starts
    · exact extent ▸ grid.classNumbers.clear classes
    · rw [same]
      exact grid.heads
  · refine sweep.carry laid second (fun h member => agree.agreeOn (elsewhere h member).1.symm) fun h member home c listed k inside cell => ?_
    have apart := (elsewhere h member).1
    have positive := long c listed k
    refine (mem_append.mp listed).elim (mem_append_left _) fun later => mem_append_right _ ((mem_cons.mp later).resolve_left ?_)
    rintro rfl
    have inner := c.cell_within inside
    rw [cell] at apart
    simp only [Span.Apart, Block.span, Span.Within] at apart inner
    omega
  · have lists : z'.available = z.available := by rw [same]
    simp only [stock, sweeping, lists]
    exact sweep.owned
  · exact fun h member => (sweep.agree h member).trans
      (agree.agreeOn (elsewhere h (mem_append_left _ (mem_append_left _ member))).1.symm)
  · exact sweep.table.clear marks
  · intro h member home cell start
    obtain ⟨apart, place⟩ := elsewhere h (mem_append_left _ (mem_append_left _ member))
    obtain ⟨c, listed, differ, k, inside, span'⟩ := place home
    have positive := long c (others c listed).1 k
    obtain ⟨_, _, _, inner, _⟩ := grid.run sound (others c listed).1
    have inner' := c.cell_within inside
    rw [span'] at start apart
    simp only [Span.Apart, Block.span, Span.Within, Extent.span, Span.ofBytes, sweep.extent] at apart inner inner'
    rw [cleared cell (by omega), if_neg (by omega)]
    exact sweep.marked h member home cell (by rw [start, span'])
  · intro a low high
    simp only [Extent.span, Span.ofBytes] at low high
    rw [cleared a low]
    by_cases gone : b.start.toNat ≤ a.toNat ∧ a.toNat < b.start.toNat + 65536
    · exact .inl (if_pos gone)
    · rw [if_neg gone, SideTable.clear_index marks]
      refine (sweep.entries a low high).imp_right ?_
      rintro ⟨c, listed, k, inside, cell, start, index, value⟩
      have differ : c ≠ b := by
        rintro rfl
        have inner := c.cell_within inside
        have positive := long c listed k
        simp only [Span.Within, Block.span] at inner
        rw [sweep.table.index_eq (k := 4) rfl (by decide) (by omega), sweep.table.index_eq (k := 4) rfl (by decide) low] at index
        omega
      have still : c ∈ kept ++ rest := (mem_append.mp listed).elim (mem_append_left _) fun later =>
        mem_append_right _ ((mem_cons.mp later).resolve_left differ)
      exact ⟨c, still, k, inside, cell, start, index, value.imp_right fun other =>
        ⟨(mem_cons.mp other.1).resolve_left differ, other.2⟩⟩
  · -- A block has 16 pages.
    have sixteen : pages = 16 := by
      have hi := congrArg Span.hi span
      have lo := congrArg Span.lo span
      simp only [Pages.Runs.spanOf, Block.span] at hi lo
      exact UInt64.toNat_inj.mp (show pages.toNat = 16 by omega)
    have level := sweep.level
    have count : 16 * (kept ++ b :: rest).length = 16 * (kept ++ rest).length + 16 := by
      simp only [length_append, length_cons]
      omega
    unfold MarkSweepSpace.excess at level ⊢
    simp only [count, UInt64.ofNat_add, show UInt64.ofNat 16 = 16 from rfl] at level
    rw [← level, Pages.Runs.release_ledger released, sixteen]
    grind
  · intro a low marked
    rw [cleared a low] at marked
    split at marked
    · exact absurd marked.symm proper
    · exact sweep.noted a low marked

end Next

section Lists

variable {l : FreeList}

theorem stock_push {k : Nat} {head : Address} {blocks : List Block} (known : k < z.available.size) :
    (s.sweeping { z with available := z.available.modify k (head :: ·) } blocks).stock ~
      (k, head) :: (s.sweeping z blocks).stock := by
  have inside : k < z.available.toList.length := known
  have found : (z.available.toList.modify k (head :: ·))[k]? = some (head :: z.available.toList[k]) := by
    rw [getElem?_modify_eq, getElem?_eq_getElem inside]
    rfl
  have back : (z.available.toList.modify k (head :: ·)).set k z.available.toList[k] = z.available.toList := by
    rw [modify_eq_set_getElem?, getElem?_eq_getElem inside, Option.map_eq_map, Option.map_some, Option.getD_some, set_set, set_getElem_self]
  simp only [stock, sweeping, Array.toList_modify]
  have popped := pop_row (g := Prod.mk) found
  rw [back] at popped
  exact popped

/-- One more free list of cells that nobody holds. -/
theorem Sweep.push (sweep : s.Sweep x m rooms buffers kept todo lists z m₁) (laid : s.LaidOut) (second : s.second = .mature x)
    (known : l.sizeClass < z.available.size) (present : l.head ≠ .null) (chain : Threaded m₁ l.head l.cells)
    (cells : ∃ b ∈ kept, b.sizeClass = l.sizeClass ∧ ∀ cell ∈ l.cells, ∃ k < b.count, l.spanOf cell = b.cell k)
    (inner : l.spans.Pairwise fun a b => a.2.Apart b.2)
    (outer : ∀ c ∈ l.spans, ∀ h ∈ rooms ++ buffers ++ lists.flatMap (·.spans), c.2.Apart h.2) :
    s.Sweep x m rooms buffers kept todo (l :: lists) { z with available := z.available.modify l.sizeClass (l.head :: ·) } m₁ := by
  have base : (s.sweeping { z with available := z.available.modify l.sizeClass (l.head :: ·) } (kept ++ todo)).Stocked m₁
      rooms buffers lists :=
    sweep.stocked.frame (laid.congr (sweeping_extent second sweep.extent)) (fun _ same => by cases same; exact sweep.gridded)
      (fun _ _ => .refl _ _) (fun _ _ housed => sweeping_houses (fun _ _ listed _ _ _ => listed) housed)
      (fun id handed => (sweeping_bumpable id).mp handed) fun _ _ cuts => cuts.imp fun _ same => by
        cases same
        exact ⟨_, rfl, fun _ listed _ => listed⟩
  have grid := sweep.gridded
  refine ⟨?_, sweep.extent, fun id => ?_, ?_, base.add_list chain (.inr ?_) inner outer, ?_, ?_, sweep.agree,
    sweep.table, sweep.marked, sweep.entries, sweep.level, sweep.noted, sweep.spared⟩
  · exact congrArg (fun w : MarkSweepSpace => { w with available := z.available.modify l.sizeClass (l.head :: ·) }) sweep.same
  · have old := sweep.supplied id
    cases id <;> exact old
  · refine ⟨grid.classes, grid.live, grid.distinct, grid.tables, grid.starts, grid.classNumbers, fun heads member head inside => ?_⟩
    obtain ⟨k, small, rfl⟩ := Array.mem_iff_getElem.mp member
    simp only [Array.size_modify] at small
    simp only [Array.getElem_modify] at inside
    have old := grid.heads _ (Array.getElem_mem small)
    split at inside
    · rcases mem_cons.mp inside with rfl | inside
      · exact present
      · exact old head inside
    · exact old head inside
  · obtain ⟨b, early, known, each⟩ := cells
    exact ⟨_, rfl, b, mem_append_left _ early, known, each⟩
  · exact (sweep.owned.cons l.key).trans (stock_push known).symm
  · intro l' listed cell free
    rcases mem_cons.mp listed with rfl | listed
    · obtain ⟨b, early, -, each⟩ := cells
      exact ⟨b, early, each cell free⟩
    · exact sweep.free l' listed cell free

/-- One block is swept. -/
theorem Sweep.block {keep : Bool} (sweep : s.Sweep x m rooms buffers kept (b :: rest) lists z m₁) (laid : s.LaidOut)
    (second : s.second = .mature x) (proper : x.current ≠ 0)
    (ok : MarkSweepSpace.sweepBlock b (z, m₁) = .ok keep (z', m₂)) :
    ∃ lists', s.Sweep x m rooms buffers (if keep = true then kept ++ [b] else kept) rest lists' z' m₂ := by
  simp only [MarkSweepSpace.sweepBlock, Step.bind_ok, Step.lift_ok, Prod.exists, Step.ite_step] at ok
  obtain ⟨size, _, _, ⟨sized, same⟩, head, live, y, m₃, row, ok⟩ := ok
  cases same
  have sized := MarkSweepSpace.cellSize_ok.mp sized
  obtain ⟨sweep, chain, count, clean⟩ := sweep.row laid second sized proper row
  split at ok
  case isTrue dead =>
    simp only [Step.bind_ok, Step.pure_ok, Prod.exists] at ok
    obtain ⟨_, _, _, discarded, rfl, same⟩ := ok
    cases same
    refine ⟨lists, sweep.discard laid second sized proper (fun k inside => ?_) discarded⟩
    have none_marked := countP_eq_zero.mp (count.symm.trans dead) k (mem_range.mpr inside)
    simpa using none_marked
  case isFalse alive =>
    have spares : x.Spares b := by
      obtain ⟨k, member, marked⟩ := countP_pos_iff.mp (count ▸ Nat.pos_of_ne_zero alive)
      have inside := mem_range.mp member
      have start := sweep.cellAt laid second sized inside
      rw [MarkSweepSpace.spares, beq_iff_eq, sweep.current] at marked
      refine ⟨k, inside, _, start, sweep.noted _ ?_ marked⟩
      obtain ⟨_, _, _, -, above⟩ := sweep.run second
      simp only [start, Block.cell]
      omega
    have passed := sweep.pass clean spares
    have span : ∀ k < b.count, FreeList.spanOf ⟨b.sizeClass, head, y.unmarked b.start size b.count⟩
        (MarkSweepSpace.cellAt b.start size k) = b.cell k := by
      intro k inside
      rw [FreeList.spanOf, sweep.cellAt laid second sized inside]
      simp only [Block.cell, Block.bytes, Span.mk.injEq, true_and, Nat.add_mul, Nat.one_mul]
      omega
    by_cases empty : head.isNull = true
    · rw [if_pos empty] at ok
      obtain ⟨_, _, ⟨-, rfl⟩, rfl, rfl⟩ := ok
      exact ⟨lists, passed⟩
    · rw [if_neg empty] at ok
      obtain ⟨_, _, rfl, rfl, rfl⟩ := ok
      by_cases known : b.sizeClass < y.available.size
      · refine ⟨_, passed.push (l := ⟨b.sizeClass, head, y.unmarked b.start size b.count⟩) laid second known
          (mt Address.isNull_iff.mpr empty) chain ⟨b, mem_append_right _ mem_cons_self, rfl, fun cell free => ?_⟩ ?_ ?_⟩
        · obtain ⟨k, inside, -, rfl⟩ := MarkSweepSpace.mem_unmarked.mp free
          exact ⟨k, inside, span k inside⟩
        · rw [FreeList.spans, MarkSweepSpace.unmarked, map_map, pairwise_map]
          refine (pairwise_lt_range.filter _).imp_of_mem fun {j k} member member' below => ?_
          have small := mem_range.mp (mem_filter.mp member).1
          have small' := mem_range.mp (mem_filter.mp member').1
          have apart := b.cell_apart (Nat.ne_of_lt below)
          rw [← span j small, ← span k small'] at apart
          exact apart
        · intro c free h member
          obtain ⟨cell, listed, rfl⟩ := mem_map.mp free
          obtain ⟨k, inside, spared, rfl⟩ := MarkSweepSpace.mem_unmarked.mp listed
          simp only [span k inside]
          exact (sweep.unheld laid second sized member inside spared).symm
      · have unchanged : y.available.modify b.sizeClass (head :: ·) = y.available := by
          rw [← Array.toList_inj, Array.toList_modify, modify_eq_self (Nat.le_of_not_lt known)]
        rw [unchanged]
        exact ⟨lists, passed⟩

end Lists

/-! ### The whole sweep -/

section Whole

variable {pieces : List Piece} {keys : List (Nat × Address)} {y : MarkSweepSpace} {m' : Memory} {u : Unit}

/-- A swept store: what was marked is as it was, everything else is free, and no mark is an old one. -/
structure Swept (s : Spaces) (x y : MarkSweepSpace) (m m' : Memory) (pieces : List Piece) (buffers : List (SpaceId × Span))
    (keys : List (Nat × Address)) : Prop where
  held : Held { s with second := .mature y } m' pieces buffers keys
  agree : ∀ p ∈ pieces, AgreeOn m m' p.span
  region : y.region = x.region.left
  extent : y.pages.extent = x.pages.extent
  current : y.current = x.current
  tracked : y.Tracked
  marked : ∀ p ∈ pieces, p.home = .second → ∀ cell : Address, cell.toNat = p.span.lo → y.marks.entryByte cell = y.current
  clean : ∀ a : Address, y.pages.extent.span.lo ≤ a.toNat → a.toNat < y.pages.extent.span.hi →
    y.marks.entryByte a = 0 ∨ y.marks.entryByte a = y.current
  level : y.excess = x.excess
  spared : ∀ b ∈ y.blocks, b ∈ x.blocks ∧ x.Spares b
  noted : ∀ a : Address, x.pages.extent.start.toNat ≤ a.toNat → y.marks.entryByte a = y.current → x.marks.entryByte a = x.current

theorem release_ok (ok : MarkSweepSpace.release (x, m) = .ok u (y, m')) :
    ∃ z, x.blocks.filterM MarkSweepSpace.sweepBlock ({ x with
      region := x.region.left
      available := Array.replicate x.available.size []
      blocks := [] }, m) = .ok y.blocks (z, m') ∧ y = { z with blocks := y.blocks } := by
  simp only [MarkSweepSpace.release, MarkSweepSpace.enterLists, Step.bind_ok, Step.on_ok, Focus.comp, Focus.fst,
    MarkSweepSpace.regionPart, Step.get_bind, Step.ensure_ok, Step.modify_bind, Step.onFault_ok, Step.modify_ok,
    Prod.exists] at ok
  obtain ⟨_, x₁, _, ⟨region, left, same⟩, _, x₂, _, ⟨x₃, ⟨-, same₁⟩, same₂⟩, kept, z, m₁, filtered, same₃⟩ := ok
  cases same
  cases same₁
  cases same₂
  cases same₃
  obtain rfl := Region.leave_ok left
  exact ⟨z, filtered, rfl⟩

theorem stock_of_empty {blocks : List Block} (empty : ∀ heads ∈ z.available, heads = []) :
    (s.sweeping z blocks).stock = [] := by
  simp only [stock, sweeping, flatten_eq_nil_iff, mem_mapIdx]
  rintro _ ⟨k, inside, rfl⟩
  rw [empty _ (Array.mem_toList_iff.mp (getElem_mem inside)), map_nil]

/-- Before the first block is swept, all free cells are dropped. -/
theorem Held.sweep (held : s.Held m pieces buffers keys) (second : s.second = .mature x) (tracked : x.Tracked)
    (marked : ∀ p ∈ pieces, p.home = .second → s.Reached p) (region : Region) (n : Nat) :
    Sweep { s with second := .mature { x with region } } { x with region } m (pieces.map Piece.held) buffers [] x.blocks []
      { x with region, available := Array.replicate n [], blocks := [] } m := by
  obtain ⟨laid, supplied, gridded, lists, stocked, -⟩ := held.estate
  have grid := gridded x second
  refine ⟨rfl, rfl, fun id => ?_, ?_, ?_, ?_, fun _ listed => absurd listed not_mem_nil, fun _ _ => .refl _ _, tracked.table, ?_,
    fun a low high => ?_, rfl, fun _ _ marked => marked, fun _ listed => absurd listed not_mem_nil⟩
  · have old := supplied id
    cases id with
    | second =>
      simp only [space, second] at old
      exact old
    | first | immortal | large => exact old
  · refine ⟨grid.classes, grid.live, grid.distinct, grid.tables, grid.starts, grid.classNumbers, fun heads member head inside => ?_⟩
    obtain ⟨-, rfl⟩ := Array.mem_replicate.mp member
    exact absurd inside not_mem_nil
  · have fewer : (pieces.map Piece.held ++ buffers ++ [].flatMap FreeList.spans) <+
        (pieces.map Piece.held ++ buffers ++ lists.flatMap FreeList.spans) := (Sublist.refl _).append (nil_sublist _)
    have dropped : s.Stocked m (pieces.map Piece.held) buffers [] :=
      ⟨stocked.apart.sublist fewer, stocked.housed, stocked.ready, fun _ listed => absurd listed not_mem_nil⟩
    exact dropped.frame laid gridded (fun _ _ => .refl _ _) (fun _ _ housed => houses_mature (s := s) second (fun _ => id) housed)
      (fun _ handed => bumpable_mature (s := s) second handed) fun _ listed => absurd listed not_mem_nil
  · exact .of_eq (stock_of_empty fun heads member => (Array.mem_replicate.mp member).2).symm
  · intro h member home cell start
    obtain ⟨p, inside, rfl⟩ := mem_map.mp member
    have reached := marked p inside home
    simp only [Piece.held] at home start
    simp only [Reached, home, space, second] at reached
    obtain ⟨cell', start', entry⟩ := reached
    obtain rfl : cell = cell' := Address.toNat_inj.mp (start.trans start'.symm)
    exact entry
  · refine (tracked.entries a low high).imp_right ?_
    rintro ⟨value, b, listed, k, inside, cell, start, same⟩
    exact ⟨b, listed, k, inside, cell, start, same, value.imp_right fun other => ⟨listed, other.2⟩⟩

/-- A collection of the whole heap ends for the mature store. Nobody has any free cells then. -/
theorem Held.swept (held : s.Held m pieces buffers keys) (none_left : ∀ key ∈ keys, key.2 = .null)
    (second : s.second = .mature x) (tracked : x.Tracked) (marked : ∀ p ∈ pieces, p.home = .second → s.Reached p)
    (ok : MarkSweepSpace.release (x, m) = .ok u (y, m')) : s.Swept x y m m' pieces buffers keys := by
  obtain ⟨z, filtered, same⟩ := release_ok ok
  have laid : LaidOut { s with second := .mature { x with region := x.region.left } } :=
    laidOut_mature held.estate.laid second rfl
  have proper : x.current ≠ 0 := by
    rcases tracked.current with one | two
    · rw [one]
      decide
    · rw [two]
      decide
  let holds := fun (kept todo : List Block) (t : MarkSweepSpace × Memory) => ∃ lists,
    Sweep { s with second := .mature { x with region := x.region.left } } { x with region := x.region.left } m
      (pieces.map Piece.held) buffers kept todo lists t.1 t.2
  obtain ⟨lists, sweep⟩ := @Step.filterM_ok _ _ _ holds _ _ _ _ ⟨[], held.sweep second tracked marked _ _⟩
    (fun _ _ _ _ _ _ ⟨_, sweep⟩ took => sweep.block laid rfl proper took) filtered
  change Sweep _ _ _ _ _ _ _ _ z m' at sweep
  have spaces : Spaces.sweeping { s with second := .mature { x with region := x.region.left } } z (y.blocks ++ []) =
      { s with second := .mature y } := by
    rw [append_nil, sweeping, ← same]
  have whole := sweep.gridded
  have supplied := sweep.supplied
  have stocked := sweep.stocked
  have owned := sweep.owned
  have entries := sweep.entries
  rw [spaces] at supplied stocked owned
  rw [append_nil, ← same] at whole
  have marks : y.marks = z.marks := by rw [same]
  have region : y.region = x.region.left := by
    rw [same]
    exact congrArg MarkSweepSpace.region sweep.same
  have current : y.current = x.current := by
    have kept := congrArg MarkSweepSpace.current sweep.same
    rw [same]
    exact kept
  have extent : y.pages.extent = x.pages.extent := by
    rw [same]
    exact sweep.extent
  have estate : Estate { s with second := .mature y } m' (pieces.map Piece.held) buffers [] := by
    refine ⟨held.estate.laid.congr fun id => ?_, supplied, fun _ found => by cases found; exact whole, lists, stocked, ?_⟩
    · rw [← spaces]
      exact sweeping_extent (s := s) second sweep.extent id
    · rw [append_nil]
      exact owned
  have bare : Held { s with second := .mature y } m' pieces buffers [] := ⟨estate, held.placed⟩
  refine ⟨bare.shed (.refl _) (Sublist.refl []) none_left, fun p member => ?_, region, extent, current,
    ⟨?_, ?_, fun a low high => ?_⟩, fun p member home cell start => ?_, fun a low high => ?_, ?_,
    fun b listed => ⟨Step.filterM_subset filtered listed, sweep.spared b listed⟩, fun a low value => ?_⟩
  · exact sweep.agree p.held (mem_map_of_mem member)
  · rw [marks, extent]
    exact sweep.table
  · rw [current]
    exact tracked.current
  · rw [extent] at low high
    rw [marks, current]
    refine (entries a low high).imp_right ?_
    rintro ⟨b, listed, k, inside, cell, start, index, value⟩
    rw [append_nil] at listed
    exact ⟨.inl (value.resolve_right fun ⟨later, _⟩ => absurd later not_mem_nil), b, listed, k, inside, cell, start, index⟩
  · rw [marks, current]
    exact sweep.marked p.held (mem_map_of_mem member) home cell start
  · rw [extent] at low high
    rw [marks, current]
    refine (entries a low high).imp_right ?_
    rintro ⟨_, _, _, _, _, _, _, value⟩
    exact value.resolve_right fun ⟨later, _⟩ => absurd later not_mem_nil
  · have level := sweep.level
    rw [append_nil, ← same] at level
    exact level
  · rw [marks, current] at value
    exact sweep.noted a low value

end Whole

end Spaces

end TracingHeap

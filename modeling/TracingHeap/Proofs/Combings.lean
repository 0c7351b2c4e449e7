import TracingHeap.Proofs.PageRuns
import TracingHeap.Proofs.Sweeps

/-! What a sweep leaves, told block by block. A block with a marked cell stays, and its other cells come out as one free
list in the order of their addresses; a block without one goes back to the page runs and is forgotten by the tables beside
the space. Nothing of the lists from before is left, and nothing else is written to. -/

namespace TracingHeap

open List Memory Step

/-! ### What can always be done -/

/-- Items are chosen one after the other if each step finds what it needs and leaves it for the next one. -/
theorem Step.filterM_total {σ β : Type} {f : β → Step σ Bool} {holds : List β → List β → σ → Prop} {items : List β} {s : σ}
    (start : holds [] items s) (next : ∀ kept b rest r, holds kept (b :: rest) r → ∃ keep r', f b r = .ok keep r' ∧
      holds (if keep = true then kept ++ [b] else kept) rest r') :
    ∃ chosen t, (items.filterM f : Step σ (List β)) s = .ok chosen t ∧ holds chosen [] t := by
  have rounds : ∀ (items kept : List β) (r : σ), holds kept.reverse items r →
      ∃ out t, (List.filterAuxM f items kept : Step σ (List β)) r = .ok out t ∧ holds out.reverse [] t := by
    intro items
    induction items with
    | nil => exact fun kept r before => ⟨kept, r, rfl, before⟩
    | cons b rest ih =>
      intro kept r before
      obtain ⟨keep, r', took, after⟩ := next kept.reverse b rest r before
      obtain ⟨out, t, later, done⟩ := ih (if keep = true then b :: kept else kept) r' (by
        cases keep with
        | true => simpa using after
        | false => exact after)
      refine ⟨out, t, bind_ok.mpr ⟨keep, r', took, ?_⟩, done⟩
      cases keep <;> exact later
  obtain ⟨out, t, filtered, done⟩ := rounds items [] s start
  exact ⟨out.reverse, t, bind_ok.mpr ⟨out, t, filtered, rfl⟩, done⟩

namespace SideTable

variable {t : SideTable} {e : Extent} {width : EntryWidth} {log : Word} {start a : Address} {bytes : Word}

/-- A range of the extent can be cleared. -/
theorem Beside.clear_total (beside : t.Beside e width log) (placed : e.Placed) {k : Nat} (known : log.toNat = k)
    (small : k ≤ 12) (low : e.span.lo ≤ start.toNat) (high : start.toNat + bytes.toNat ≤ e.span.hi) :
    ∃ t', SideTable.clear start bytes t = .ok () t' := by
  rw [← beside.span] at low high
  exact (beside.complete placed known small).clear_total fun _ => ⟨low, high⟩

end SideTable

namespace Pages.Runs

variable {e : Extent} {r r' : Runs} {m m' : Memory} {run : Run} {start : Address} {pages : Word}

/-- The page that a run starts with. -/
theorem pageOf_run (here : start.toNat = (r.spanOf run).lo) : r.pageOf start = .ok run.first := by
  simp only [spanOf] at here
  have away : start.distance r.extent.start = .ok (start.word - r.extent.start.word) :=
    Address.distance_ok.mpr ⟨by omega, rfl⟩
  have amount := (Address.toNat_distance away).2
  have log : Word.logPage.toNat % 64 = 12 := rfl
  rw [pageOf, away]
  refine congrArg Except.ok ?_
  rw [UInt64.toNat_shiftRight, amount, Nat.shiftRight_eq_div_pow, log]
  omega

/-- No two live runs start with the same page. -/
theorem Settled.run_eq {owed : Nat} {q : Run} (settled : r.Settled e owed) (member : q ∈ r.map.live) (live : run ∈ r.map.live)
    (same : q.first = run.first) : q = run := by
  by_contra other
  have : Std.Symm Run.Apart := ⟨fun _ _ apart => apart.symm⟩
  have apart := (pairwise_append.mp settled.tiled.sound.apart).1.forall member live other
  have proper := settled.tiled.sound.proper q (mem_append_left _ member)
  have proper' := settled.tiled.sound.proper run (mem_append_left _ live)
  unfold Run.Apart Run.Proper at *
  omega

/-- A live run whose pages are counted is taken back. -/
theorem release_of_live {first : Nat} (page : r.pageOf start = .ok first) (found : r.map.liveAt? first = some run)
    (counted : UInt64.ofNat run.pages ≤ r.ledger.reserved ∧ UInt64.ofNat run.pages ≤ r.ledger.committed) (m : Memory) :
    release start (r, m) = .ok (UInt64.ofNat run.pages)
      ({ r with
        ledger := r.ledger.released (UInt64.ofNat run.pages)
        map := (r.map.forget first).giveBack ⟨first, run.pages⟩ },
        m.giveBack start (Word.ofPages (UInt64.ofNat run.pages))) := by
  simp only [release, bind_ok, get_bind, lift_ok]
  refine ⟨first, _, ⟨page, rfl⟩, ?_⟩
  rw [found]
  simp only [modify_bind, bind_ok, on_ok, Focus.comp, Focus.fst, ledgerPart, Ledger.release_ok, pure_ok]
  refine ⟨(), _, ⟨_, ⟨counted, rfl⟩, rfl⟩, trivial, ?_⟩
  rw [Ledger.released]

/-- A live run can be taken back, and is then the only one that is missing. -/
theorem Settled.release_total (settled : r.Settled e 0) (live : run ∈ r.map.live) (here : start.toNat = (r.spanOf run).lo)
    (m : Memory) : ∃ r' m', Runs.release start (r, m) = .ok (UInt64.ofNat run.pages) (r', m') ∧
      ∀ q, q ∈ r'.map.live ↔ q ∈ r.map.live ∧ q ≠ run := by
  obtain ⟨found, there⟩ : ∃ found, r.map.liveAt? run.first = some found :=
    Option.isSome_iff_exists.mp (find?_isSome.mpr ⟨run, live, beq_self_eq_true _⟩)
  obtain ⟨member, at_first⟩ := RunMap.liveAt_ok there
  obtain rfl := settled.run_eq member live at_first
  have gone := (RunMap.release_sound settled.tiled.sound member).2
  have total := settled.sum_lt
  have counted := (gone.map (·.pages)).sum_nat
  rw [map_cons, sum_cons] at counted
  have number : (UInt64.ofNat found.pages).toNat = found.pages := by
    rw [UInt64.toNat_ofNat']
    exact Nat.mod_eq_of_lt (by omega)
  have committed : UInt64.ofNat found.pages ≤ r.ledger.committed := by
    rw [UInt64.le_iff_toNat_le, number, settled.counts.committed]
    omega
  have reserved : UInt64.ofNat found.pages ≤ r.ledger.reserved := by
    rw [UInt64.le_iff_toNat_le, number, settled.counts.reserved, Nat.add_zero, Nat.mod_eq_of_lt total]
    omega
  have ran := release_of_live (pageOf_run here) there ⟨reserved, committed⟩ m
  refine ⟨_, _, ran, fun q => ?_⟩
  have nodup := gone.nodup settled.tiled.live_nodup
  rw [gone.mem_iff, mem_cons]
  constructor
  · intro kept
    exact ⟨.inr kept, fun same => (nodup_cons.mp nodup).1 (same ▸ kept)⟩
  · rintro ⟨here | kept, differ⟩
    · exact absurd here differ
    · exact kept

end Pages.Runs

/-! ### One block -/

/-- A list starts with its first cell, and is null just if it has none. -/
theorem Threaded.head_eq {m : Memory} {head : Address} {cells : List Address} (chain : Threaded m head cells) :
    head = cells.headD .null ∧ head.isNull = cells.isEmpty := by
  cases cells with
  | nil =>
    have null : head = .null := chain
    rw [null]
    exact ⟨rfl, rfl⟩
  | cons cell rest =>
    obtain ⟨rfl, proper, -⟩ := chain
    exact ⟨rfl, Bool.eq_false_iff.mpr fun null => proper (Address.isNull_iff.mp null)⟩

namespace Block

/-- The size of the cells of the block. -/
def size (b : Block) : Word := (SizeClass.sizeOf? b.sizeClass).getD 0

/-- The address lies in the block. -/
def Holds (b : Block) (a : Nat) : Prop := b.span.lo ≤ a ∧ a < b.span.hi

instance (b : Block) (a : Nat) : Decidable (b.Holds a) := inferInstanceAs (Decidable (_ ∧ _))

theorem sizeOf_known {b : Block} (known : b.sizeClass < 19) : SizeClass.sizeOf? b.sizeClass = some b.size := by
  have found : SizeClass.sizeOf? b.sizeClass = some (SizeClass.sizes[b.sizeClass]) := Array.getElem?_eq_getElem known
  rw [size, found]
  rfl

theorem cells_size (b : Block) : SizeClass.cells b.size = b.count := UInt64.toNat_div ..

end Block

namespace MarkSweepSpace

variable {x y z z' : MarkSweepSpace} {m m' m₁ m₂ : Memory} {b : Block} {done rest todo : List Block} {start : Address} {size : Word}
  {n k : Nat}

/-- The cells of a block that the collection has marked, in the order of their addresses. -/
def markedCells (x : MarkSweepSpace) (b : Block) : List Address :=
  ((List.range b.count).filter (x.spares b.start b.size)).map (cellAt b.start b.size)

/-- The other cells of a block, in the order of their addresses. -/
def freeCells (x : MarkSweepSpace) (b : Block) : List Address := x.unmarked b.start b.size b.count

/-- Has the collection marked a cell of the block? -/
def lives (x : MarkSweepSpace) (b : Block) : Bool := !(x.markedCells b).isEmpty

/-- The first cell of a block that is not marked, or null. -/
def firstFree (x : MarkSweepSpace) (b : Block) : Address := (x.freeCells b).headD .null

/-- Does the sweep of the block leave a free list? -/
def yields (x : MarkSweepSpace) (b : Block) : Bool := x.lives b && !(x.freeCells b).isEmpty

/-- The store can be swept: blocks are live runs of their own, the tables reach over the whole space, and the ledger counts
what is live. Nothing is said about marks, and nothing about the lists but that there is one for every class. -/
structure Combable (x : MarkSweepSpace) (todo : List Block) : Prop where
  placed : x.pages.extent.Placed
  positive : 0 < x.pages.extent.start.toNat
  settled : x.pages.Settled x.pages.extent 0
  marks : x.marks.Beside x.pages.extent .byte 4
  starts : x.blockStarts.Beside x.pages.extent .word 12
  classNumbers : x.blockClasses.Beside x.pages.extent .byte 12
  rows : x.available.size = 19
  proper : x.current ≠ 0
  known : ∀ b ∈ todo, b.sizeClass < 19
  live : ∀ b ∈ todo, ∃ run ∈ x.pages.map.live, run.pages = 16 ∧ b.start.toNat = (x.pages.spanOf run).lo
  distinct : todo.Pairwise fun b c => b.start ≠ c.start

/-- The mature store of a program can be swept when its lists are in order and its pages are accounted for. -/
theorem Gridded.combable (grid : x.Gridded) (tracked : x.Tracked) (settled : x.pages.Settled x.pages.extent 0)
    (placed : x.pages.extent.Placed) (positive : 0 < x.pages.extent.start.toNat) (rows : x.available.size = 19) :
    x.Combable x.blocks where
  placed := placed
  positive := positive
  settled := settled
  marks := tracked.table
  starts := grid.starts
  classNumbers := grid.classNumbers
  rows := rows
  proper := by rcases tracked.current with one | two <;> simp [*]
  known := grid.classes
  live := grid.live
  distinct := grid.distinct

/-- Each block is a live run within the extent. -/
theorem Combable.run (combable : x.Combable todo) (member : b ∈ todo) :
    ∃ run ∈ x.pages.map.live, run.pages = 16 ∧ x.pages.spanOf run = b.span ∧ b.span.Within x.pages.extent.span := by
  obtain ⟨run, live, pages, start⟩ := combable.live b member
  have same : x.pages.spanOf run = b.span := by
    simp only [Pages.Runs.spanOf] at start
    simp only [Pages.Runs.spanOf, Block.span, pages, start, Span.mk.injEq, true_and]
    omega
  exact ⟨run, live, pages, same, same ▸ combable.settled.sound.spanOf_within live⟩

/-- Blocks share no memory. -/
theorem Combable.apart (combable : x.Combable (b :: rest)) {c : Block} (member : c ∈ rest) : b.span.Apart c.span := by
  obtain ⟨run, live, -, same, -⟩ := combable.run mem_cons_self
  obtain ⟨run', live', -, same', -⟩ := combable.run (mem_cons_of_mem _ member)
  have differ := (pairwise_cons.mp combable.distinct).1 c member
  have other : run ≠ run' := by
    rintro rfl
    have := congrArg Span.lo (same.symm.trans same')
    exact differ (Address.toNat_inj.mp this)
  have : Std.Symm Pages.Run.Apart := ⟨fun _ _ apart => apart.symm⟩
  rw [← same, ← same']
  exact Pages.Runs.spanOf_apart ((combable.settled.sound.apart.sublist (sublist_append_left _ _)).forall live live' other)

/-- Where the cells of a block are. -/
structure Combable.Cut (x : MarkSweepSpace) (b : Block) : Prop where
  sized : SizeClass.sizeOf? b.sizeClass = some b.size
  large : 16 ≤ b.size.toNat
  low : x.pages.extent.start.toNat ≤ b.start.toNat
  high : b.start.toNat + 65536 ≤ x.pages.extent.span.hi
  cells : b.count * b.size.toNat ≤ 65536
  fits : b.start.toNat + 65536 < 2 ^ 63
  page : (b.start.toNat - x.pages.extent.start.toNat) % 4096 = 0
  aligned : b.start.toNat % 8 = 0
  whole : b.size.toNat % 8 = 0

theorem Combable.cut (combable : x.Combable (b :: rest)) : Combable.Cut x b := by
  have known := combable.known b mem_cons_self
  obtain ⟨large, -, whole⟩ := SizeClass.bytesOf_facts known
  obtain ⟨run, -, -, same, within⟩ := combable.run mem_cons_self
  have fits := combable.placed.fits
  have first := combable.placed.start
  have lo := congrArg Span.lo same
  simp only [Pages.Runs.spanOf, Span.Within, Block.span, Extent.span, Span.ofBytes] at lo within
  exact ⟨Block.sizeOf_known known, large, within.1, within.2, Nat.div_mul_le_self 65536 b.bytes, by omega, by omega, by omega, whole⟩

theorem Combable.Cut.cellAt (cut : Combable.Cut x b) (inside : k < b.count) :
    (cellAt b.start b.size k).toNat = (b.cell k).lo ∧ (b.cell k).lo % 8 = 0 ∧ (b.cell k).lo + 16 ≤ (b.cell k).hi ∧
      (b.cell k).Within b.span := by
  have cells := cut.cells
  have fits := cut.fits
  have large := cut.large
  have aligned := cut.aligned
  have below := Nat.mul_le_mul_right b.size.toNat (Nat.le_of_lt inside)
  have even : k * b.size.toNat % 8 = 0 := by rw [Nat.mul_mod, cut.whole, Nat.mul_zero]
  have bytes : b.bytes = b.size.toNat := rfl
  refine ⟨toNat_cellAt (by omega), ?_, ?_, b.cell_within inside⟩
  all_goals simp only [Block.cell, bytes, Nat.add_mul]; omega

/-- Cells have marks of their own. -/
theorem Combable.Cut.index_ne (cut : Combable.Cut x b) (beside : z.marks.Beside x.pages.extent .byte 4) {j : Nat}
    (inside : j < b.count) (inside' : k < b.count) (differ : j ≠ k) :
    z.marks.index (MarkSweepSpace.cellAt b.start b.size j) ≠ z.marks.index (MarkSweepSpace.cellAt b.start b.size k) := by
  obtain ⟨here, -, long, within⟩ := cut.cellAt inside
  obtain ⟨there, -, long', within'⟩ := cut.cellAt inside'
  have low := cut.low
  have apart := b.cell_apart differ
  simp only [Span.Apart, Span.Within, Block.span] at apart within within'
  exact beside.index_ne (by omega) (by omega) (by omega)

/-- The marks of a row of cells can be looked at and cleared. -/
theorem sweepCells_total (placed : x.pages.extent.Placed) (beside : x.marks.Beside x.pages.extent .byte 4)
    (inside : ∀ k < n, x.pages.extent.span.lo ≤ (cellAt start size k).toNat ∧
      (cellAt start size k).toNat < x.pages.extent.span.hi) (head : Address) (live : Nat) :
    ∃ r y m', sweepCells start size head live n (x, m) = .ok r (y, m') := by
  induction n generalizing x m head live with
  | zero => exact ⟨_, _, _, rfl⟩
  | succ n ih =>
    obtain ⟨low, high⟩ := inside n (Nat.lt_succ_self n)
    have loaded := beside.load_total placed rfl (by decide) low high
    have byte := beside.loadByte_total placed rfl (by decide) low high
    have fewer : ∀ k < n, _ := fun k small => inside k (Nat.lt_succ_of_lt small)
    simp only [sweepCells, get_bind, bind_ok, lift_ok]
    by_cases marked : x.marks.entryByte (cellAt start size n) == x.current
    · obtain ⟨r, y, m', ran⟩ := ih placed beside fewer head (live + 1)
      refine ⟨r, y, m', _, _, ⟨byte, rfl⟩, ?_⟩
      rw [ite_step, if_pos marked]
      exact ran
    · obtain ⟨t, stored⟩ := SideTable.store_total loaded 0
      obtain ⟨-, -, put⟩ := SideTable.store_ok stored
      obtain ⟨r, y, m', ran⟩ := ih (x := { x with marks := t }) (m := m.store (cellAt start size n) head.word) placed
        (put ▸ beside.put _ _) fewer (cellAt start size n) live
      refine ⟨r, y, m', _, _, ⟨byte, rfl⟩, ?_⟩
      rw [ite_step, if_neg marked]
      simp only [bind_ok, on_ok, Focus.comp, Focus.fst, marksPart, modify_ok]
      exact ⟨(), _, ⟨t, stored, rfl⟩, (), _, rfl, ran⟩

/-- What became of a block. -/
structure CombedBlock (x y : MarkSweepSpace) (m m' : Memory) (b : Block) : Prop where
  /-- The cells that are not marked are a list, unless the block went back. -/
  free : x.lives b = true → Threaded m' (x.firstFree b) (x.freeCells b)
  /-- A marked cell keeps its mark and what is in it. -/
  marked : ∀ k < b.count, x.spares b.start b.size k = true →
    y.marks.entryByte (MarkSweepSpace.cellAt b.start b.size k) = x.current ∧ AgreeOn m m' (b.cell k)
  cleared : ∀ k < b.count, x.spares b.start b.size k = false →
    y.marks.entryByte (MarkSweepSpace.cellAt b.start b.size k) = 0
  /-- The tables still know a block that is kept. -/
  known : x.lives b = true → ∀ a : Address, b.Holds a.toNat →
    y.blockStarts.entry a = x.blockStarts.entry a ∧ y.blockClasses.entry a = x.blockClasses.entry a
  /-- They have forgotten one that went back. -/
  forgotten : x.lives b = false → ∀ a : Address, b.Holds a.toNat →
    y.marks.entryByte a = 0 ∧ y.blockStarts.entry a = 0 ∧ y.blockClasses.entry a = 0

/-- What the sweep of one block does to the store. -/
structure Combs (x y : MarkSweepSpace) (m m' : Memory) (b : Block) : Prop extends CombedBlock x y m m' b where
  same : y = { x with
    pages := y.pages
    marks := y.marks
    blockStarts := y.blockStarts
    blockClasses := y.blockClasses
    available := y.available }
  extent : y.pages.extent = x.pages.extent
  settled : y.pages.Settled x.pages.extent 0
  live : ∀ run, run ∈ y.pages.map.live ↔
    run ∈ x.pages.map.live ∧ (x.lives b = false → (x.pages.spanOf run).lo ≠ b.start.toNat)
  available : y.available = if x.yields b = true then x.available.modify b.sizeClass (x.firstFree b :: ·) else x.available
  marks : y.marks.Beside x.pages.extent .byte 4
  starts : y.blockStarts.Beside x.pages.extent .word 12
  classNumbers : y.blockClasses.Beside x.pages.extent .byte 12
  outside : ∀ a : Address, x.pages.extent.start.toNat ≤ a.toNat → ¬ b.Holds a.toNat →
    y.marks.entryByte a = x.marks.entryByte a ∧ y.blockStarts.entry a = x.blockStarts.entry a ∧
      y.blockClasses.entry a = x.blockClasses.entry a
  elsewhere : AgreeOff m m' b.span

theorem lives_iff : x.lives b = true ↔ ∃ k < b.count, x.spares b.start b.size k = true := by
  simp [lives, markedCells]

/-- No cell of a block that goes back is marked. -/
theorem spares_of_dead (dead : x.lives b = false) (inside : k < b.count) : x.spares b.start b.size k = false := by
  by_contra marked
  rw [Bool.not_eq_false] at marked
  rw [lives_iff.mpr ⟨k, inside, marked⟩] at dead
  cases dead

section Row

variable (swept : x.RowSwept y m m' b.start b.size b.count) (cut : Combable.Cut x b)
include swept cut

/-- The mark of a cell once its row is swept. -/
theorem RowSwept.cell (marks : x.marks.Beside x.pages.extent .byte 4) (inside : k < b.count) :
    y.marks.entryByte (MarkSweepSpace.cellAt b.start b.size k) =
      if x.spares b.start b.size k = true then x.current else 0 := by
  rw [swept.marks]
  cases spared : x.spares b.start b.size k with
  | true =>
    rw [if_neg, if_pos rfl]
    · exact beq_iff_eq.mp spared
    · rintro ⟨cell, member, same⟩
      obtain ⟨j, inside', clear, rfl⟩ := mem_unmarked.mp member
      refine cut.index_ne marks inside' inside (fun here => ?_) same
      rw [here, spared] at clear
      cases clear
  | false =>
    rw [if_pos ⟨_, mem_unmarked.mpr ⟨k, inside, spared, rfl⟩, rfl⟩, if_neg Bool.false_ne_true]

/-- Marks outside of the row stay. -/
theorem RowSwept.mark_outside (marks : x.marks.Beside x.pages.extent .byte 4) {a : Address}
    (above : x.pages.extent.start.toNat ≤ a.toNat) (outside : ¬ b.Holds a.toNat) :
    y.marks.entryByte a = x.marks.entryByte a := by
  rw [swept.marks, if_neg]
  rintro ⟨cell, member, same⟩
  obtain ⟨j, inside, -, rfl⟩ := mem_unmarked.mp member
  obtain ⟨place, -, long, within⟩ := cut.cellAt inside
  have low := cut.low
  have page := cut.page
  simp only [Block.Holds, Block.span, Span.Within] at outside within
  rw [marks.index_eq (k := 4) rfl (by decide) (by omega), marks.index_eq (k := 4) rfl (by decide) above] at same
  omega

/-- Only cells that are not marked are written to. -/
theorem RowSwept.calm {r : Span} (apart : ∀ k < b.count, x.spares b.start b.size k = false → r.Apart (b.cell k)) :
    AgreeOn m m' r := by
  intro i low high
  refine swept.memory i fun cell member same => ?_
  obtain ⟨k, inside, clear, rfl⟩ := mem_unmarked.mp member
  obtain ⟨place, even, long, -⟩ := cut.cellAt inside
  have away := apart k inside clear
  unfold Span.Apart at away
  omega

theorem RowSwept.agree_off : AgreeOff m m' b.span := by
  intro i outside
  refine swept.memory i fun cell member same => outside ?_
  obtain ⟨k, inside, -, rfl⟩ := mem_unmarked.mp member
  obtain ⟨place, even, long, within⟩ := cut.cellAt inside
  simp only [Span.Within] at within
  omega

end Row

/-- A block with a marked cell is kept, with its free list if there is one. -/
theorem Combable.keep (combable : x.Combable (b :: rest)) (swept : x.RowSwept y m m' b.start b.size b.count)
    (chain : Threaded m' (x.firstFree b) (x.freeCells b)) (lives : x.lives b = true) {available : Array (List Address)}
    (pushed : available = if x.yields b = true then x.available.modify b.sizeClass (x.firstFree b :: ·) else x.available) :
    x.Combs { y with available } m m' b where
  free _ := chain
  marked k inside spared := by
    have mark := swept.cell combable.cut combable.marks inside
    rw [if_pos spared] at mark
    exact ⟨mark, swept.calm combable.cut fun j _ clear => b.cell_apart fun same => by rw [same, clear] at spared; cases spared⟩
  cleared k inside clear := by
    have mark := swept.cell combable.cut combable.marks inside
    rwa [if_neg (by rw [clear]; exact Bool.false_ne_true)] at mark
  known _ a _ := by rw [swept.same]; exact ⟨rfl, rfl⟩
  forgotten dead := by rw [lives] at dead; cases dead
  same := by rw [swept.same]
  extent := by rw [swept.same]
  settled := by rw [swept.same]; exact combable.settled
  live run := by rw [swept.same, lives]; simp
  available := pushed
  marks := swept.beside
  starts := by rw [swept.same]; exact combable.starts
  classNumbers := by rw [swept.same]; exact combable.classNumbers
  outside a above outside := by
    refine ⟨swept.mark_outside combable.cut combable.marks above outside, ?_⟩
    rw [swept.same]
    exact ⟨rfl, rfl⟩
  elsewhere := swept.agree_off combable.cut

/-- A cell of a block is inside it. -/
theorem holds_cellAt (cut : Combable.Cut x b) {k : Nat} (inside : k < b.count) : b.Holds (cellAt b.start b.size k).toNat := by
  obtain ⟨place, -, long, within⟩ := cut.cellAt inside
  simp only [Span.Within] at within
  exact ⟨by omega, by omega⟩

/-- A block without a marked cell goes back. -/
theorem Combable.discard (combable : x.Combable (b :: rest)) (swept : x.RowSwept y m m₁ b.start b.size b.count)
    (dead : x.lives b = false) : ∃ z m₂, discard b.start (y, m₁) = .ok () (z, m₂) ∧ x.Combs z m m₂ b := by
  have cut := combable.cut
  have low := cut.low
  have high : b.start.toNat + SizeClass.blockBytes.toNat ≤ x.pages.extent.span.hi := cut.high
  obtain ⟨marks, rfl⟩ : ∃ marks, y = { x with marks } := ⟨_, swept.same⟩
  have beside : marks.Beside x.pages.extent .byte 4 := swept.beside
  obtain ⟨run, live, pages, span, within⟩ := combable.run mem_cons_self
  have here : b.start.toNat = (x.pages.spanOf run).lo := by rw [span]; rfl
  obtain ⟨t, cleared⟩ := beside.clear_total combable.placed rfl (by decide) low high
  obtain ⟨t', cleared'⟩ := combable.starts.clear_total combable.placed rfl (Nat.le_refl 12) low high
  obtain ⟨t'', cleared''⟩ := combable.classNumbers.clear_total combable.placed rfl (Nat.le_refl 12) low high
  obtain ⟨p, m₂, released, left⟩ := combable.settled.release_total live here m₁
  obtain ⟨run', live', above, first, -, extent, -, -, off⟩ := Pages.Runs.release_ok combable.placed combable.settled.sound released
  obtain rfl : run' = run := combable.settled.run_eq live' live (by
    simp only [Pages.Runs.spanOf] at here
    omega)
  rw [span] at off
  have entries : ∀ a : Address, x.pages.extent.start.toNat ≤ a.toNat →
      t.entry a = (if b.Holds a.toNat then 0 else marks.entry a) ∧
        t'.entry a = (if b.Holds a.toNat then 0 else x.blockStarts.entry a) ∧
        t''.entry a = if b.Holds a.toNat then 0 else x.blockClasses.entry a := fun a above =>
    ⟨beside.entry_block (.inl rfl) low cut.page above cleared,
      combable.starts.entry_block (.inr rfl) low cut.page above cleared',
      combable.classNumbers.entry_block (.inr rfl) low cut.page above cleared''⟩
  have in_block : ∀ a : Address, b.Holds a.toNat → x.pages.extent.start.toNat ≤ a.toNat := fun a holds => Nat.le_trans low holds.1
  refine ⟨{ x with pages := p, marks := t, blockStarts := t', blockClasses := t'' }, m₂, ?_, ?_⟩
  · simp only [MarkSweepSpace.discard, bind_ok, on_ok, onBoth_ok, Focus.comp, Focus.fst, Focus.snd, marksPart, blockStartsPart,
      blockClassesPart, pagesPart]
    exact ⟨(), _, ⟨t, cleared, rfl⟩, (), _, ⟨t', cleared', rfl⟩, (), _, ⟨t'', cleared'', rfl⟩, _, _, ⟨p, m₂, released, rfl⟩, rfl⟩
  · exact {
      free := fun lives => by rw [dead] at lives; cases lives
      marked := fun k inside spared => by rw [spares_of_dead dead inside] at spared; cases spared
      cleared := fun k inside _ => by
        have holds := holds_cellAt cut inside
        change (t.entry _).toUInt8 = 0
        rw [(entries _ (in_block _ holds)).1, if_pos holds]
        rfl
      known := fun lives => by rw [dead] at lives; cases lives
      forgotten := fun _ a holds => by
        obtain ⟨mark, start, number⟩ := entries a (in_block a holds)
        rw [if_pos holds] at mark start number
        exact ⟨congrArg UInt64.toUInt8 mark, start, number⟩
      same := rfl
      extent := extent
      settled := combable.settled.release released
      live := fun q => by
        refine (left q).trans (and_congr_right fun member => ?_)
        rw [here]
        refine ⟨fun differ _ same => differ (combable.settled.run_eq member live ?_), fun differ same => differ dead (by rw [same])⟩
        simp only [Pages.Runs.spanOf] at same
        omega
      available := by
        have none : x.yields b = false := by rw [yields, dead]; rfl
        rw [none]
        rfl
      marks := beside.clear cleared
      starts := combable.starts.clear cleared'
      classNumbers := combable.classNumbers.clear cleared''
      outside := fun a above outside => by
        obtain ⟨mark, start, number⟩ := entries a above
        rw [if_neg outside] at mark start number
        exact ⟨(congrArg UInt64.toUInt8 mark).trans (swept.mark_outside cut combable.marks above outside), start, number⟩
      elsewhere := fun i outside => (off i outside).trans (swept.agree_off cut i outside) }

/-- A block whose classes and marks are any is swept. -/
theorem Combable.sweepBlock (combable : x.Combable (b :: rest)) (m : Memory) :
    ∃ y m', sweepBlock b (x, m) = .ok (x.lives b) (y, m') ∧ x.Combs y m m' b := by
  have cut := combable.cut
  have low := cut.low
  have high := cut.high
  have positive := combable.positive
  have fits := cut.fits
  have cells := cut.cells
  have span : x.pages.extent.span.lo = x.pages.extent.start.toNat := rfl
  have inside : ∀ k < b.count, x.pages.extent.span.lo ≤ (MarkSweepSpace.cellAt b.start b.size k).toNat ∧
      (MarkSweepSpace.cellAt b.start b.size k).toNat < x.pages.extent.span.hi := by
    intro k small
    obtain ⟨place, -, long, within⟩ := cut.cellAt small
    simp only [Span.Within, Block.span] at within
    omega
  obtain ⟨⟨head, live⟩, y, m₁, ran⟩ := sweepCells_total (m := m) combable.placed combable.marks inside .null 0
  have none : Threaded m .null [] := rfl
  obtain ⟨swept, chain, count⟩ := sweepCells_ok combable.marks low (by omega) cut.large (by omega) none
    (fun _ member => absurd member not_mem_nil) ran
  rw [append_nil] at chain
  obtain ⟨first, null⟩ := chain.head_eq
  change head = x.firstFree b at first
  subst first
  have sized : cellSize b.sizeClass = .ok b.size := cellSize_ok.mpr cut.sized
  have counted : live = 0 ↔ x.lives b = false := by
    rw [count, Nat.zero_add, countP_eq_zero, ← Bool.not_eq_true, lives_iff]
    simp
  simp only [MarkSweepSpace.sweepBlock, bind_ok, lift_ok]
  cases lives : x.lives b with
  | true =>
    have some : ¬ live = 0 := fun none => by rw [counted.mp none] at lives; cases lives
    refine ⟨_, _, ⟨b.size, _, ⟨sized, rfl⟩, _, _, b.cells_size ▸ ran, ?_⟩, combable.keep swept chain lives rfl⟩
    simp only [if_neg some]
    have kept : y.available = x.available := by rw [swept.same]
    change _ = EStateM.Result.ok true ({ y with available := if (x.lives b && !(x.freeCells b).isEmpty) = true then _ else _ }, m₁)
    rw [lives, ← kept]
    change (x.firstFree b).isNull = (x.freeCells b).isEmpty at null
    cases none : (x.freeCells b).isEmpty with
    | true =>
      rw [none] at null
      simp only [null, if_pos]
      rfl
    | false =>
      rw [none] at null
      simp only [null]
      rfl
  | false =>
    obtain ⟨z, m₂, gone, combs⟩ := combable.discard swept lives
    refine ⟨z, m₂, ⟨b.size, _, ⟨sized, rfl⟩, _, _, b.cells_size ▸ ran, ?_⟩, combs⟩
    simp only [if_pos (counted.mpr lives)]
    exact bind_ok.mpr ⟨(), _, gone, rfl⟩

/-! ### All blocks -/

/-- The addresses of other blocks. -/
theorem not_holds {c : Block} (apart : b.span.Apart c.span) {a : Nat} (holds : c.Holds a) : ¬ b.Holds a := by
  simp only [Block.Holds, Span.Apart] at *
  omega

/-- Two stores tell the same of a block, and so they will do the same with it. -/
structure Judged (x z : MarkSweepSpace) (b : Block) : Prop where
  spares : ∀ k < b.count, z.spares b.start b.size k = x.spares b.start b.size k
  free : z.freeCells b = x.freeCells b
  lives : z.lives b = x.lives b
  first : z.firstFree b = x.firstFree b
  yields : z.yields b = x.yields b

/-- Stores with the same marks tell the same. -/
theorem Judged.of_marks (current : z.current = x.current) (same : ∀ k < b.count,
    z.marks.entryByte (cellAt b.start b.size k) = x.marks.entryByte (cellAt b.start b.size k)) : x.Judged z b := by
  have spares : ∀ k < b.count, z.spares b.start b.size k = x.spares b.start b.size k := fun k inside => by
    rw [MarkSweepSpace.spares, MarkSweepSpace.spares, same k inside, current]
  have member : ∀ k ∈ List.range b.count, z.spares b.start b.size k = x.spares b.start b.size k := fun k inside =>
    spares k (mem_range.mp inside)
  have marked : z.markedCells b = x.markedCells b := congrArg (map _) (filter_congr member)
  have free : z.freeCells b = x.freeCells b := congrArg (map _) (filter_congr fun k inside => congrArg not (member k inside))
  have lives : z.lives b = x.lives b := by rw [MarkSweepSpace.lives, MarkSweepSpace.lives, marked]
  exact ⟨spares, free, lives, by rw [firstFree, firstFree, free], by rw [MarkSweepSpace.yields, MarkSweepSpace.yields, lives, free]⟩

/-- In the middle of a sweep: some blocks are done, and the others are as they were. -/
structure Combing (x : MarkSweepSpace) (m : Memory) (done rest : List Block) (z : MarkSweepSpace) (m₁ : Memory) : Prop where
  same : z = { x with
    pages := z.pages
    marks := z.marks
    blockStarts := z.blockStarts
    blockClasses := z.blockClasses
    available := z.available }
  ready : z.Combable rest
  extent : z.pages.extent = x.pages.extent
  cuts : ∀ b ∈ done, Combable.Cut x b
  apart : ∀ b ∈ done, ∀ c ∈ rest, b.span.Apart c.span
  live : ∀ run, run ∈ z.pages.map.live ↔ run ∈ x.pages.map.live ∧
    ∀ b ∈ done, x.lives b = false → (x.pages.spanOf run).lo ≠ b.start.toNat
  available : ∀ k, z.available[k]? = x.available[k]?.map
    (((done.filter fun b => b.sizeClass == k && x.yields b).map x.firstFree).reverse ++ ·)
  each : ∀ b ∈ done, x.CombedBlock z m m₁ b
  outside : ∀ a : Address, x.pages.extent.start.toNat ≤ a.toNat → (∀ b ∈ done, ¬ b.Holds a.toNat) →
    z.marks.entryByte a = x.marks.entryByte a ∧ z.blockStarts.entry a = x.blockStarts.entry a ∧
      z.blockClasses.entry a = x.blockClasses.entry a
  elsewhere : ∀ i, (∀ b ∈ done, ¬ b.Holds (8 * i)) → m₁.word i = m.word i

/-- Before the first block is swept. -/
theorem Combable.combing (combable : x.Combable todo) (m : Memory) : x.Combing m [] todo x m where
  same := rfl
  ready := combable
  extent := rfl
  cuts _ member := absurd member not_mem_nil
  apart _ member := absurd member not_mem_nil
  live run := ⟨fun member => ⟨member, fun _ absent => absurd absent not_mem_nil⟩, And.left⟩
  available k := by simp
  each _ member := absurd member not_mem_nil
  outside _ _ _ := ⟨rfl, rfl, rfl⟩
  elsewhere _ _ := rfl

/-- What is done with one block leaves what was done with another one. -/
theorem CombedBlock.carry {c : Block} (combed : x.CombedBlock z m m₁ c) (cut : Combable.Cut x c) (combs : z.Combs z' m₁ m₂ b)
    (extent : z.pages.extent = x.pages.extent) (apart : c.span.Apart b.span) : x.CombedBlock z' m m₂ c := by
  have apart' : b.span.Apart c.span := Or.symm apart
  have low := cut.low
  have stays : ∀ a : Address, c.Holds a.toNat → z'.marks.entryByte a = z.marks.entryByte a ∧
      z'.blockStarts.entry a = z.blockStarts.entry a ∧ z'.blockClasses.entry a = z.blockClasses.entry a := by
    intro a holds
    refine combs.outside a ?_ (not_holds apart' holds)
    rw [extent]
    exact Nat.le_trans low holds.1
  have words : ∀ i, c.Holds (8 * i) → m₂.word i = m₁.word i := fun i holds => combs.elsewhere i (not_holds apart' holds)
  refine ⟨fun lives => (combed.free lives).frame fun cell' member => ?_, fun k inside spared => ?_, fun k inside clear => ?_,
    fun lives a holds => ?_, fun dead a holds => ?_⟩
  · obtain ⟨k, inside, -, rfl⟩ := mem_unmarked.mp member
    obtain ⟨place, even, long, within⟩ := cut.cellAt inside
    simp only [Span.Within] at within
    exact words _ ⟨by omega, by omega⟩
  · obtain ⟨mark, agree⟩ := combed.marked k inside spared
    refine ⟨(stays _ (holds_cellAt cut inside)).1.trans mark, fun i above below => ?_⟩
    obtain ⟨-, -, -, within⟩ := cut.cellAt inside
    simp only [Span.Within] at within
    exact (words i ⟨by omega, by omega⟩).trans (agree i above below)
  · exact (stays _ (holds_cellAt cut inside)).1.trans (combed.cleared k inside clear)
  · obtain ⟨-, start, number⟩ := stays a holds
    rw [start, number]
    exact combed.known lives a holds
  · obtain ⟨mark, start, number⟩ := stays a holds
    rw [mark, start, number]
    exact combed.forgotten dead a holds

namespace Combing

variable (combing : x.Combing m done (b :: rest) z m₁)
include combing

theorem current : z.current = x.current := by
  rw [combing.same]

/-- The next block is cut as it was at first. -/
theorem cut : Combable.Cut x b := by
  obtain ⟨sized, large, low, high, cells, fits, page, aligned, whole⟩ := combing.ready.cut
  rw [combing.extent] at low high page
  exact ⟨sized, large, low, high, cells, fits, page, aligned, whole⟩

/-- Nothing in the next block belongs to one that is done. -/
theorem untouched {a : Nat} (holds : b.Holds a) : ∀ c ∈ done, ¬ c.Holds a := fun c member =>
  not_holds (combing.apart c member b mem_cons_self) holds

/-- The next block is judged as it would have been at first. -/
theorem judged : x.Judged z b :=
  .of_marks combing.current fun _ inside =>
    (combing.outside _ (Nat.le_trans combing.cut.low (holds_cellAt combing.cut inside).1) (combing.untouched (holds_cellAt combing.cut inside))).1

/-- The sweep of the next block does what the judgement of the first store asks for. -/
theorem combedBlock (combs : z.Combs z' m₁ m₂ b) : x.CombedBlock z' m m₂ b := by
  have judged := combing.judged
  refine ⟨fun alive => ?_, fun k inside spared => ?_, fun k inside clear => ?_, fun alive a holds => ?_, fun dead => ?_⟩
  · rw [← judged.first, ← judged.free]
    exact combs.free (judged.lives ▸ alive)
  · obtain ⟨mark, agree⟩ := combs.marked k inside (judged.spares k inside ▸ spared)
    refine ⟨mark.trans combing.current, fun i above below => (agree i above below).trans (combing.elsewhere i (combing.untouched ?_))⟩
    obtain ⟨-, -, -, within⟩ := combing.cut.cellAt inside
    simp only [Span.Within] at within
    exact ⟨by omega, by omega⟩
  · exact combs.cleared k inside (judged.spares k inside ▸ clear)
  · obtain ⟨start, number⟩ := combs.known (judged.lives ▸ alive) a holds
    obtain ⟨-, start', number'⟩ := combing.outside a (Nat.le_trans combing.cut.low holds.1) (combing.untouched holds)
    exact ⟨start.trans start', number.trans number'⟩
  · exact combs.forgotten (judged.lives ▸ dead)

/-- The blocks after the next one can still be swept. -/
theorem combable (combs : z.Combs z' m₁ m₂ b) : z'.Combable rest := by
  obtain ⟨differ, distinct⟩ := pairwise_cons.mp combing.ready.distinct
  have same := combs.extent
  exact {
    placed := same ▸ combing.ready.placed
    positive := same ▸ combing.ready.positive
    settled := same ▸ combs.settled
    marks := same ▸ combs.marks
    starts := same ▸ combs.starts
    classNumbers := same ▸ combs.classNumbers
    rows := by
      rw [combs.available]
      split
      · rw [Array.size_modify]
        exact combing.ready.rows
      · exact combing.ready.rows
    proper := by
      rw [combs.same]
      exact combing.ready.proper
    known := fun c member => combing.ready.known c (mem_cons_of_mem _ member)
    live := fun c member => by
      obtain ⟨run, live, pages, start⟩ := combing.ready.live c (mem_cons_of_mem _ member)
      refine ⟨run, (combs.live run).mpr ⟨live, fun _ same => differ c member (Address.toNat_inj.mp (same.symm.trans start.symm))⟩,
        pages, ?_⟩
      rw [start, Pages.Runs.spanOf, Pages.Runs.spanOf, same]
    distinct }

/-- The lists of free cells get that of the next block, if it yields any. -/
theorem available_next (combs : z.Combs z' m₁ m₂ b) (k : Nat) : z'.available[k]? = x.available[k]?.map
    ((((done ++ [b]).filter fun c => c.sizeClass == k && x.yields c).map x.firstFree).reverse ++ ·) := by
  have after := combs.available
  rw [combing.judged.yields, combing.judged.first] at after
  rw [after, filter_append, map_append, reverse_append]
  by_cases here : b.sizeClass = k ∧ x.yields b = true
  · obtain ⟨rfl, some⟩ := here
    rw [if_pos some, Array.getElem?_modify, if_pos rfl, combing.available]
    cases x.available[b.sizeClass]? <;> simp [some]
  · have skipped : [b].filter (fun c => c.sizeClass == k && x.yields c) = [] := by
      refine filter_eq_nil_iff.mpr fun c member => ?_
      rw [mem_singleton.mp member]
      simpa using here
    rw [skipped, map_nil, reverse_nil, nil_append, ← combing.available]
    split
    next some => rw [Array.getElem?_modify, if_neg fun same => here ⟨same, some⟩]
    next => rfl

/-- The next block is swept like the first one, for nobody has touched it. -/
theorem next : ∃ z' m₂, MarkSweepSpace.sweepBlock b (z, m₁) = .ok (x.lives b) (z', m₂) ∧ x.Combing m (done ++ [b]) rest z' m₂ := by
  obtain ⟨z', m₂, ran, combs⟩ := combing.ready.sweepBlock m₁
  have extent := combing.extent
  have lives := combing.judged.lives
  refine ⟨z', m₂, lives ▸ ran, ⟨?_, combing.combable combs, combs.extent.trans extent, ?_, ?_, fun run => ?_,
    combing.available_next combs, ?_, fun a above outside => ?_, fun i outside => ?_⟩⟩
  · rw [combs.same, combing.same]
  · intro c member
    rcases mem_append.mp member with old | new
    · exact combing.cuts c old
    · exact mem_singleton.mp new ▸ combing.cut
  · intro c member d later
    rcases mem_append.mp member with old | new
    · exact combing.apart c old d (mem_cons_of_mem _ later)
    · exact mem_singleton.mp new ▸ combing.ready.apart later
  · rw [combs.live, combing.live, and_assoc]
    refine and_congr_right fun _ => ?_
    rw [lives, Pages.Runs.spanOf, Pages.Runs.spanOf, extent, forall_mem_append, forall_mem_singleton]
  · intro c member
    rcases mem_append.mp member with old | new
    · exact (combing.each c old).carry (combing.cuts c old) combs extent (combing.apart c old b mem_cons_self)
    · exact mem_singleton.mp new ▸ combing.combedBlock combs
  · rw [forall_mem_append, forall_mem_singleton] at outside
    obtain ⟨mark, start, number⟩ := combs.outside a (extent ▸ above) outside.2
    obtain ⟨mark', start', number'⟩ := combing.outside a above outside.1
    exact ⟨mark.trans mark', start.trans start', number.trans number'⟩
  · rw [forall_mem_append, forall_mem_singleton] at outside
    exact (combs.elsewhere i outside.2).trans (combing.elsewhere i outside.1)

end Combing

/-! ### The whole sweep -/

/-- The free cells of a block come in the order of their addresses, and each comes once. -/
theorem Combable.Cut.ascending (cut : Combable.Cut x b) : (x.freeCells b).Pairwise fun c d => c.toNat < d.toNat := by
  refine pairwise_map.mpr (pairwise_lt_range.filter _ |>.imp_of_mem fun {j k} member member' less => ?_)
  have inside := mem_range.mp (mem_filter.mp member).1
  have inside' := mem_range.mp (mem_filter.mp member').1
  have large := cut.large
  have apart := Nat.mul_le_mul_right b.bytes (Nat.succ_le_of_lt less)
  have bytes : b.bytes = b.size.toNat := rfl
  rw [(cut.cellAt inside).1, (cut.cellAt inside').1]
  simp only [Block.cell]
  rw [Nat.succ_mul] at apart
  omega

/-- The store after a sweep, as its marks were before. -/
structure Combed (x y : MarkSweepSpace) (m m' : Memory) : Prop where
  same : y = { x with
    region := x.region.left
    pages := y.pages
    marks := y.marks
    blockStarts := y.blockStarts
    blockClasses := y.blockClasses
    available := y.available
    blocks := y.blocks }
  /-- The blocks with a marked cell are kept, in the order that they had. -/
  blocks : y.blocks = x.blocks.filter x.lives
  /-- A class has one list for every kept block of it that has other cells too, and no list besides. -/
  available : y.available = Array.ofFn fun k : Fin 19 =>
    ((x.blocks.filter fun b => b.sizeClass == k.val && x.yields b).map x.firstFree).reverse
  ascending : ∀ b ∈ x.blocks, (x.freeCells b).Pairwise fun c d => c.toNat < d.toNat
  each : ∀ b ∈ x.blocks, x.CombedBlock y m m' b
  /-- The pages of the other blocks went back, and no other pages did. -/
  live : ∀ run, run ∈ y.pages.map.live ↔
    run ∈ x.pages.map.live ∧ ∀ b ∈ x.blocks, x.lives b = false → (x.pages.spanOf run).lo ≠ b.start.toNat
  settled : y.pages.Settled x.pages.extent 0
  outside : ∀ a : Address, x.pages.extent.start.toNat ≤ a.toNat → (∀ b ∈ x.blocks, ¬ b.Holds a.toNat) →
    y.marks.entryByte a = x.marks.entryByte a ∧ y.blockStarts.entry a = x.blockStarts.entry a ∧
      y.blockClasses.entry a = x.blockClasses.entry a
  elsewhere : ∀ i, (∀ b ∈ x.blocks, ¬ b.Holds (8 * i)) → m'.word i = m.word i

/-- The store once its lists are dropped. -/
def opened (x : MarkSweepSpace) : MarkSweepSpace :=
  { x with
    region := x.region.left
    available := Array.replicate x.available.size []
    blocks := [] }

theorem Combable.opened (combable : x.Combable todo) : x.opened.Combable todo where
  placed := combable.placed
  positive := combable.positive
  settled := combable.settled
  marks := combable.marks
  starts := combable.starts
  classNumbers := combable.classNumbers
  rows := Array.size_replicate.trans combable.rows
  proper := combable.proper
  known := combable.known
  live := combable.live
  distinct := combable.distinct

theorem leave_eq {r : Region} (prepared : r.prepared = true) : Region.leave r = .ok () r.left := by
  rw [Region.leave]
  simp only [get_bind, set_bind, ensure_ok]
  exact ⟨prepared, rfl⟩

/-- All blocks are swept once the list of those to do is empty. -/
theorem Combing.combed (combing : x.opened.Combing m x.blocks [] z m₁) (rows : x.available.size = 19) :
    x.Combed { z with blocks := x.blocks.filter x.lives } m m₁ where
  same := by rw [combing.same]; rfl
  blocks := rfl
  available := by
    refine Array.ext_getElem? fun k => ?_
    refine (combing.available k).trans ?_
    rw [MarkSweepSpace.opened, Array.getElem?_replicate, Array.getElem?_ofFn, rows]
    split
    · exact congrArg some (append_nil _)
    · rfl
  ascending b member := (combing.cuts b member).ascending
  each b member := by
    obtain ⟨free, marked, cleared, known, forgotten⟩ := combing.each b member
    exact ⟨free, marked, cleared, known, forgotten⟩
  live := combing.live
  settled := combing.extent ▸ combing.ready.settled
  outside := combing.outside
  elsewhere := combing.elsewhere

/-- The sweep goes through, whatever the marks are and whatever was on the lists, and it is exact: blocks with a marked cell
are kept in their order, their other cells are the free lists that there are now, and other blocks go back. -/
theorem Combable.sweeps_exactly (combable : x.Combable x.blocks) (prepared : x.region.prepared = true) (whole : x.poisoned = false)
    (m : Memory) : ∃ y m', release (x, m) = .ok () (y, m') ∧ x.Combed y m m' := by
  -- What holds of the blocks that were kept and of those that are left, round by round.
  let holds : List Block → List Block → MarkSweepSpace × Memory → Prop := fun kept rest r =>
    ∃ done, x.blocks = done ++ rest ∧ kept = done.filter x.lives ∧ x.opened.Combing m done rest r.1 r.2
  have start : holds [] x.blocks (x.opened, m) := ⟨[], rfl, rfl, combable.opened.combing m⟩
  obtain ⟨kept, ⟨z, m'⟩, filtered, done, split, kept_eq, combing⟩ := Step.filterM_total start (f := MarkSweepSpace.sweepBlock) (by
      rintro kept b rest ⟨z, m₁⟩ ⟨done, split, rfl, combing⟩
      obtain ⟨z', m₂, ran, next⟩ := combing.next
      refine ⟨_, _, ran, done ++ [b], by rw [split, append_assoc, singleton_append], ?_, next⟩
      have same : x.opened.lives b = x.lives b := rfl
      rw [same, filter_append]
      cases lives : x.lives b <;> simp [lives])
  rw [append_nil] at split
  subst kept_eq split
  refine ⟨_, m', ?_, combing.combed combable.rows⟩
  simp only [release, enterLists, bind_ok, on_ok, Focus.comp, Focus.fst, regionPart, get_bind, ensure_ok, modify_bind, onFault_ok,
    modify_ok]
  exact ⟨(), _, ⟨x.region.left, leave_eq prepared, rfl⟩, (), _, ⟨_, ⟨by rw [whole]; rfl, rfl⟩, rfl⟩, _, _, filtered, rfl⟩

/-- Address space for four blocks. -/
def fourBlocks : Extent := ⟨⟨1⟩, ⟨4194304⟩, 262144⟩

/-- Three blocks in the middle of a collection: the first one has eight cells, of which the second is marked and the third has
an old mark, the second one has a mark in no cell, and the third one has ten cells, of which the last is marked. -/
def strewn : MarkSweepSpace where
  region := { Region.new "mature" true with prepared := true }
  pages := ⟨fourBlocks, ⟨48, 48⟩, ⟨[], [⟨32, 16⟩, ⟨16, 16⟩, ⟨0, 16⟩], 48⟩⟩
  marks := (((⟨⟨4194304⟩, 262144, 4, .byte, 16384, .empty⟩ : SideTable).put ⟨4202496⟩ 2).put ⟨4210688⟩ 1).put ⟨4380672⟩ 2
  blockStarts := ⟨⟨4194304⟩, 262144, 12, .word, 512, .empty⟩
  blockClasses := ⟨⟨4194304⟩, 262144, 12, .byte, 64, .empty⟩
  current := 2
  available := Array.replicate 19 [⟨4194304⟩]
  blocks := [⟨⟨4194304⟩, 18⟩, ⟨⟨4259840⟩, 18⟩, ⟨⟨4325376⟩, 17⟩]
  poisoned := false

theorem strewn_settled : strewn.pages.Settled fourBlocks 0 where
  extent := rfl
  tiled := {
    sound := ⟨by simp [strewn, Pages.Run.Apart], by simp [strewn, Pages.Run.Proper], by decide⟩
    coalesced := ⟨.nil, fun _ member => absurd member not_mem_nil⟩
    filled := fun page below => by
      change page < 48 at below
      simp only [strewn, append_nil, Pages.Run.Filled, Pages.Run.Has, mem_cons, not_mem_nil, or_false, exists_eq_or_imp,
        exists_eq_left]
      omega }
  counts := ⟨rfl, rfl⟩

theorem strewn_combable : strewn.Combable strewn.blocks where
  placed := ⟨by decide, by decide, by decide⟩
  positive := by decide
  settled := strewn_settled
  marks := ⟨rfl, rfl, rfl, rfl, rfl⟩
  starts := ⟨rfl, rfl, rfl, rfl, rfl⟩
  classNumbers := ⟨rfl, rfl, rfl, rfl, rfl⟩
  rows := rfl
  proper := by decide
  known := by decide
  live := by decide
  distinct := by decide

/-- The sweep of the three blocks. -/
theorem strewn_sweeps_exactly : strewn.Combable strewn.blocks ∧ strewn.region.prepared = true ∧ strewn.poisoned = false ∧
    ∃ y m', release (strewn, .empty) = .ok () (y, m') ∧ strewn.Combed y .empty m' :=
  ⟨strewn_combable, rfl, rfl, strewn_combable.sweeps_exactly rfl rfl .empty⟩

/-- The block in the middle goes back. -/
example : strewn.blocks.filter strewn.lives = [⟨⟨4194304⟩, 18⟩, ⟨⟨4325376⟩, 17⟩] := by decide

end MarkSweepSpace

end TracingHeap

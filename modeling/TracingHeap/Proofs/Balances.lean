import Mathlib.Data.Set.Card
import TracingHeap.Proofs.Cells
import TracingHeap.Proofs.Graphs
import TracingHeap.Proofs.Treadmills
import TracingHeap.Proofs.Vacancies
import TracingHeap.Proofs.Verdicts

/-! What is left of memory after a collection of the whole heap. The space that ordinary objects were allocated in is empty,
the blocks and the large objects that are left are those that the program can still get to, and the pages that are counted
are the pages of these. Nothing that the program can get to was given back. -/

namespace TracingHeap

open List Memory

/-! ### Pages that are counted

Counters have 64 bits. Live runs and blocks share no memory, so there are never as many that a counter would start over. -/

/-- When the accounts are level, the counter is the number of pages of the live runs. -/
theorem Pages.Runs.Sound.reserved {r : Pages.Runs} (sound : r.Sound) (level : r.excess = 0) :
    r.ledger.reserved.toNat = r.livePages := by
  have few := sound.sum_pages_le
  have bound := r.extent.bytes.toNat_lt
  rw [Pages.Runs.excess_eq_zero.mp level, UInt64.toNat_ofNat', Pages.Runs.livePages, Nat.mod_eq_of_lt (by omega)]

/-- When the accounts are level, the counter is the number of pages of the blocks. -/
theorem MarkSweepSpace.Gridded.reserved {x : MarkSweepSpace} (grid : x.Gridded) (sound : x.pages.Sound) (level : x.excess = 0) :
    x.pages.ledger.reserved.toNat = 16 * x.blocks.length := by
  have apart : (x.blocks.map Block.span).Pairwise Span.Apart :=
    pairwise_map.mpr (grid.distinct.imp_of_mem fun member member' differ =>
      grid.apart sound member member' fun same => differ (congrArg Block.start same))
  have room := Span.sum_le apart fun s member => by
    obtain ⟨b, listed, rfl⟩ := mem_map.mp member
    obtain ⟨_, -, -, within, -⟩ := grid.run sound listed
    exact within
  have bytes : ((x.blocks.map Block.span).map fun s => s.hi - s.lo).sum = 65536 * x.blocks.length := by
    rw [map_map, map_congr_left (g := fun _ => 65536) fun b _ => by simp [Block.span], map_const', sum_replicate_nat, Nat.mul_comm]
  have bound := x.pages.extent.bytes.toNat_lt
  rw [bytes] at room
  simp only [Extent.span, Span.ofBytes] at room
  have counted : x.pages.ledger.reserved = UInt64.ofNat (16 * x.blocks.length) := by
    unfold MarkSweepSpace.excess at level
    grind
  rw [counted, UInt64.toNat_ofNat', Nat.mod_eq_of_lt (by omega)]

/-! ### What is left -/

/-- The address is in the block. -/
def Block.Contains (b : Block) (a : Address) : Prop := b.span.lo ≤ a.toNat ∧ a.toNat < b.span.hi

/-- The mature store has no other blocks than those of certain objects. -/
structure MarkSweepSpace.Trimmed (x : MarkSweepSpace) (objects : Set Address) : Prop where
  /-- Every block contains an object. -/
  used : ∀ b ∈ x.blocks, ∃ a ∈ objects, b.Contains a
  /-- Every object is in a block. -/
  housed : ∀ a ∈ objects, x.pages.extent.holds a = true → ∃ b ∈ x.blocks, b.Contains a
  reserved : x.pages.ledger.reserved.toNat = 16 * {b | b ∈ x.blocks ∧ ∃ a ∈ objects, b.Contains a}.ncard

/-- The large object space has certain objects and no others, besides runs that no object was made of yet. -/
structure LargeSpace.Trimmed (x : LargeSpace) (objects raw : Set Address) : Prop where
  listed : ∀ o, x.treadmill.Lists o ↔ o ∈ objects ∧ x.pages.extent.holds o = true
  /-- Each object and each run that is still to be used has a live run of pages of its own, and there are no others. -/
  runs : Set.BijOn (fun o => o.alignDown Word.pageBytes) ({o | x.treadmill.Lists o} ∪ raw) x.pages.starts
  reserved : x.pages.ledger.reserved.toNat = x.pages.livePages

namespace World

/-- Large memory that no object was made of yet. -/
def rawLarges (w : World) : Set Address := {a | ∃ t ∈ w.tenants, t.home = .large ∧ t.isObject = false ∧ t.start = a}

/-- What a collection of the whole heap leaves of the memory of a program. -/
structure Reclaimed (w : World) (h : Heap) : Prop where
  /-- The nursery, or the half that was in use, is empty. -/
  emptied : ∃ x, h.spaces.space w.heap.current = .copying x ∧ x.pages.cursor = x.pages.extent.start ∧ x.pages.ledger.reserved = 0
  mature : ∀ x, h.spaces.second = .mature x → x.Trimmed {a | h.Leads a}
  large : h.spaces.large.Trimmed {a | h.Leads a} w.rawLarges
  /-- Every object that the roots lead to is one of the program's, and all of its memory is still handed out. -/
  kept : ∀ a, h.Leads a → ∃ t ∈ w.tenants, t.isObject = true ∧ w.heap.Leads t.start ∧
    Alike w.heap.memory h.memory t.start a t.bytes ∧ ∃ id, h.spaces.Issued id ⟨a.toNat, a.toNat + t.bytes⟩

variable {w : World} {pieces₀ known pieces kept : List Piece} {h₁ h h' : Heap} {cs cs' : List Collector} {full : Bool} {p : Piece}

/-! ### What was reached -/

/-- What a collection of the whole heap has reached and not moved away, the roots lead to afterwards. -/
theorem Sound.leads_of_reached (sound : w.Sound pieces₀ known)
    (cycle : Heap.Cycle w.heap.stopped h₁ h h' w.heap.team cs cs' pieces₀ known pieces kept full) (whole : h.lastFull = true)
    (member : p ∈ pieces) (ordinary : p.home ≠ .immortal) (stays : ¬ h.spaces.Evacuates p.home) (reached : h.spaces.Reached p) :
    h'.Leads p.start := by
  obtain ⟨_, opened⟩ := cycle.traced.opened
  have closing := cycle.traced.closing.kept
  have held := cycle.traced.shared.held
  have leads : ∀ o ∈ known, Outset.Found ⟨h₁, pieces₀, known⟩ o → h'.Leads (h.spaces.image o) := fun o member found => by
    have finds := sound.finds_of_found cycle.traced found
    rw [whole, World.finds_full] at finds
    obtain ⟨q, member', start, -, leads⟩ := cycle.leads_image (finds.congr rfl rfl)
    obtain rfl := sound.quiet.held.start_inj (sound.knows.known q member').1 (sound.knows.known o member).1 start
    exact leads
  by_cases before : p ∈ pieces₀
  · have unreached := opened.set.unreached_ordinary cycle.quiet before ordinary (cycle.traced.lastFull_iff.mp whole)
    obtain ⟨known, found⟩ := (closing.found p before reached).resolve_left unreached
    rw [← cycle.traced.shared.tracked.image_eq held member stays]
    exact leads p known found
  · obtain ⟨o, known, found, -, image⟩ := closing.origins p member before
    rw [← image]
    exact leads o known found

/-- What a collection of the whole heap has marked in the mature store is the cell of a piece that it has reached. -/
theorem Sound.piece_of_spares (cycle : Heap.Cycle w.heap.stopped h₁ h h' w.heap.team cs cs' pieces₀ known pieces kept full)
    (whole : h.lastFull = true) {x : MarkSweepSpace} {b : Block} (second : h.spaces.second = .mature x) (listed : b ∈ x.blocks)
    (spares : x.Spares b) : ∃ p ∈ pieces, p.home = .second ∧ h.spaces.Reached p ∧ b.Contains p.start := by
  have held := cycle.traced.shared.held
  have tracked := cycle.traced.shared.tracked
  have grid := held.estate.gridded x second
  have sound := held.estate.supplied .second
  simp only [Spaces.space, second, Spaces.Sourced] at sound
  have prepared : x.region.prepared = true := by
    have engaged := cycle.traced.engaged cycle.quiet .second
    simpa only [Spaces.space, second, Space.region, Spaces.engages, whole] using engaged
  obtain ⟨k, inside, cell, start, marked⟩ := spares
  have within := grid.cell_within sound listed inside
  have wide := grid.cell_wide listed k
  have below : cell.toNat < x.pages.extent.span.hi := start ▸ Nat.lt_of_lt_of_le (by omega) within.2
  obtain ⟨p, member, home, -, cell', start', index⟩ := tracked.owned x second prepared cell (start ▸ within.1) below marked
  obtain ⟨b', listed', k', inside', room⟩ := held.cell member home second
  have within' := grid.cell_within sound listed' inside'
  -- Cells have marks of their own, so the piece has the very cell that is marked.
  have same : (b', k') = (b, k) := by
    refine Classical.byContradiction fun differ => ?_
    have far := grid.cells_far sound listed' inside' listed inside differ
    refine (tracked.mature x second).table.index_ne ?_ ?_ ?_ index
    · rw [start', room]
      exact within'.1
    · rw [start]
      exact within.1
    · rw [start', start, room]
      exact far
  cases same
  have placed := held.placed p member
  have contained := b.cell_within inside
  rw [← room] at contained
  refine ⟨p, member, home, ?_, Nat.le_trans contained.1 placed.low, ?_⟩
  · simp only [Spaces.Reached, home, Spaces.space, second]
    exact ⟨cell, by rw [start, room], marked⟩
  · have room := placed.room
    have high := contained.2
    omega

/-- The mature store keeps the blocks of the objects that the roots lead to. -/
theorem Sound.mature_trimmed (sound : w.Sound pieces₀ known)
    (cycle : Heap.Cycle w.heap.stopped h₁ h h' w.heap.team cs cs' pieces₀ known pieces kept full) (whole : h.lastFull = true)
    {y : MarkSweepSpace} (second : h'.spaces.second = .mature y) : y.Trimmed {a | h'.Leads a} := by
  have held := cycle.settled.held
  have grid := held.estate.gridded y second
  obtain ⟨objects, knows, -⟩ := cycle.knows_next
  have used : ∀ b ∈ y.blocks, ∃ a ∈ {a | h'.Leads a}, b.Contains a := by
    intro b listed
    obtain ⟨-, x, before, -⟩ := cycle.freed.mature y second
    obtain ⟨y', second', spared⟩ := cycle.freed.spared whole x before
    cases second.symm.trans second'
    obtain ⟨listed', spares⟩ := spared b listed
    obtain ⟨p, member, home, reached, contains⟩ := piece_of_spares cycle whole before listed' spares
    refine ⟨p.start, sound.leads_of_reached cycle whole member (by rw [home]; nofun) ?_ reached, contains⟩
    simp only [Spaces.Evacuates, home, Spaces.space, before, not_false_eq_true]
  refine ⟨used, fun a leads inside => ?_, ?_⟩
  · obtain ⟨o, member, rfl⟩ := knows.of_leads leads
    have there := (knows.known o member).1
    obtain ⟨low, high⟩ := held.inside there
    have home : .second = o.home := held.estate.laid.unique (by simp only [Spaces.space, second]; exact inside) low high
    obtain ⟨b, listed, k, small, room⟩ := held.cell there home.symm second
    have placed := held.placed o there
    have cell := b.cell_within small
    rw [← room] at cell
    exact ⟨b, listed, Nat.le_trans cell.1 placed.low, Nat.lt_of_lt_of_le (by have := placed.room; omega) cell.2⟩
  · have level : y.excess = 0 := by
      have exact_ := congrArg Prod.snd (cycle.level.trans sound.exact)
      simpa only [Spaces.excess, second] using exact_
    have supplied := held.estate.supplied .second
    simp only [Spaces.space, second, Spaces.Sourced] at supplied
    have blocks : {b | b ∈ y.blocks ∧ ∃ a ∈ {a | h'.Leads a}, b.Contains a} = (y.blocks.toFinset : Set Block) := by
      refine Set.ext fun b => ?_
      rw [Finset.mem_coe, mem_toFinset]
      exact ⟨And.left, fun listed => ⟨listed, used b listed⟩⟩
    have distinct : y.blocks.Nodup := grid.distinct.imp fun differ same => differ (congrArg Block.start same)
    rw [blocks, Set.ncard_coe_finset, toFinset_card_of_nodup distinct]
    exact grid.reserved supplied level

/-- The large object space keeps the objects that the roots lead to. -/
theorem Sound.large_trimmed (sound : w.Sound pieces₀ known)
    (cycle : Heap.Cycle w.heap.stopped h₁ h h' w.heap.team cs cs' pieces₀ known pieces kept full) (whole : h.lastFull = true) :
    h'.spaces.large.Trimmed {a | h'.Leads a} w.rawLarges := by
  have held := cycle.settled.held
  have tracked := cycle.settled.tracked.large
  have still : ∀ {p : Piece}, p.home = .large → ¬ h.spaces.Evacuates p.home := fun home => by rw [home]; exact id
  obtain ⟨objects, knows, -⟩ := cycle.knows_next
  have leads : ∀ p ∈ kept, p.home = .large → p.isObject = true → h'.Leads p.start := by
    intro p member home object
    have reached := (cycle.sifted.retained p member).2 (by rw [Heap.covered_iff, home]; trivial)
    simp only [home, object, reduceCtorEq, false_or, and_false] at reached
    exact sound.leads_of_reached cycle whole (cycle.sifted.fewer.subset member) (by rw [home]; nofun) (still home) reached
  refine ⟨fun o => ⟨fun lists => ?_, fun ⟨led, inside⟩ => ?_⟩, ?_, ?_⟩
  · obtain ⟨p, member, home, object, rfl⟩ := tracked.listed o lists
    have inside := held.inside member
    rw [home] at inside
    exact ⟨leads p member home object, Extent.holds_iff.mpr inside⟩
  · obtain ⟨p, member, rfl⟩ := knows.of_leads led
    obtain ⟨there, object, -⟩ := knows.known p member
    obtain ⟨low, high⟩ := held.inside there
    have home : .large = p.home := held.estate.laid.unique inside low high
    exact tracked.complete p there home.symm object
  · have pieces_ : {o | h'.spaces.large.treadmill.Lists o} ∪ w.rawLarges = {a | ∃ p ∈ kept, p.home = .large ∧ p.start = a} := by
      refine Set.ext fun a => ⟨?_, ?_⟩
      · rintro (lists | ⟨t, member, home, raw, rfl⟩)
        · obtain ⟨p, member, home, -, start⟩ := tracked.listed a lists
          exact ⟨p, member, home, start⟩
        · obtain ⟨p, there, rfl⟩ := (sound.tenants t).mp member
          exact ⟨p, cycle.kept_of_retains there ⟨still home, fun _ => .inr (.inl ⟨home, raw⟩)⟩, home, rfl⟩
      · rintro ⟨p, member, home, rfl⟩
        cases object : p.isObject with
        | true => exact .inl (tracked.complete p member home object)
        | false =>
          -- Copies are objects, so memory that no object was made of was there before.
          have before : p ∈ pieces₀ := by
            refine Classical.byContradiction fun new => ?_
            have copied := (cycle.traced.closing.kept.copies p (cycle.sifted.fewer.subset member) new).1
            exact absurd (object.symm.trans copied) Bool.false_ne_true
          exact .inr ⟨p.tenant, (sound.tenants _).mpr ⟨p, before, rfl⟩, home, object, rfl⟩
    rw [pieces_]
    exact held.large_runs (cycle.occupied sound.occupied)
  · exact Pages.Runs.Sound.reserved (held.estate.supplied .large) (congrArg Prod.fst (cycle.level.trans sound.exact))

/-- The space that ordinary objects were allocated in starts anew. -/
theorem Sound.emptied (cycle : Heap.Cycle w.heap.stopped h₁ h h' w.heap.team cs cs' pieces₀ known pieces kept full) :
    ∃ x, h'.spaces.space w.heap.current = .copying x ∧ x.pages.cursor = x.pages.extent.start ∧ x.pages.ledger.reserved = 0 := by
  have same : h.spaces.emptied h.other = w.heap.current :=
    (cycle.evacuates _).mp ((cycle.traced.evacuates _).mpr rfl)
  have kind := Spaces.copying_iff.mp w.heap.current_copying
  rw [show w.heap.spaces.plan = h'.spaces.plan from cycle.plan.symm] at kind
  obtain ⟨x, space⟩ := Spaces.copying_iff.mpr kind
  have new := cycle.released.frees.vacant (by rwa [same])
  exact ⟨x, space, by rw [new]; rfl, by rw [new]; rfl⟩

/-- What the roots lead to has kept its memory. -/
theorem Sound.kept_memory (sound : w.Sound pieces₀ known)
    (cycle : Heap.Cycle w.heap.stopped h₁ h h' w.heap.team cs cs' pieces₀ known pieces kept full) {a : Address} (leads : h'.Leads a) :
    ∃ t ∈ w.tenants, t.isObject = true ∧ w.heap.Leads t.start ∧ Alike w.heap.memory h'.memory t.start a t.bytes ∧
      ∃ id, h'.spaces.Issued id ⟨a.toNat, a.toNat + t.bytes⟩ := by
  have held := cycle.settled.held
  obtain ⟨o, member, before, done, rfl⟩ := cycle.origin_of_leads leads
  obtain ⟨there, object, -⟩ := sound.knows.known o member
  obtain ⟨r, inside, start, bytes, -⟩ := cycle.sifted.images o member done
  have placed := held.placed r inside
  refine ⟨o.tenant, (sound.tenants _).mpr ⟨o, there, rfl⟩, object, before.congr rfl rfl, cycle.alike member done, r.home, ?_⟩
  refine Spaces.issued_mono (held.issued inside) ⟨?_, ?_⟩
  · exact start ▸ placed.low
  · change (h.spaces.image o).toNat + o.bytes ≤ _
    rw [← start, ← bytes]
    exact placed.high

theorem Reclaimed.congr {h h' : Heap} (reclaimed : w.Reclaimed h) (spaces : h'.spaces = h.spaces) (memory : h'.memory = h.memory)
    (roots : h'.program.roots = h.program.roots) : w.Reclaimed h' := by
  have leads : {a | h'.Leads a} = {a | h.Leads a} :=
    Set.ext fun a => ⟨fun led => led.congr roots.symm memory.symm, fun led => led.congr roots memory⟩
  obtain ⟨emptied, mature, large, kept⟩ := reclaimed
  refine ⟨spaces ▸ emptied, spaces ▸ leads ▸ mature, spaces ▸ leads ▸ large, fun a led => ?_⟩
  rw [spaces, memory]
  exact kept a (led.congr roots.symm memory.symm)

/-- It is all the same to memory whether the threads run. -/
theorem reclaimed_resumed {c : Crew} : w.Reclaimed (h.resumed c) ↔ w.Reclaimed h := by
  obtain ⟨tally, demand, disabled, resumes, resumed⟩ := h.resumed_eq c
  rw [resumed]
  exact ⟨fun reclaimed => reclaimed.congr rfl rfl rfl, fun reclaimed => reclaimed.congr rfl rfl rfl⟩

/-- After a collection of the whole heap that completes, with any number of collectors and in any order of their steps, the
pages that are counted are those of the objects that the program can still get to. -/
theorem Reachable.reclaims_exactly {group : Array Collector} {c' : Crew} (reachable : w.Reachable) (there : w.heap.collectors = some group)
    (run : Crew.Run (.ofCollectors group, w.heap.stopped) (c', h')) (complete : c'.isOver = true) (whole : h'.lastFull = true) :
    w.Reclaimed (h'.resumed c') := by
  obtain ⟨pieces₀, known, sound⟩ := reachable.sound
  obtain ⟨c, h, traced, closure, rest⟩ := sound.passes there run complete
  obtain ⟨h₁, pieces, kept, full, cycle, -⟩ := sound.cycle there closure traced rest complete
  have whole : h.lastFull = true := by
    obtain ⟨_, _, _, same⟩ := cycle.released.heap
    have scope : h'.scope.full = h.scope.full := by rw [same]
    rwa [Heap.lastFull, show h'.plan = h.plan from cycle.freed.plan, scope] at whole
  exact reclaimed_resumed.mpr ⟨Sound.emptied cycle, fun y second => sound.mature_trimmed cycle whole second,
    sound.large_trimmed cycle whole, fun a leads => sound.kept_memory cycle leads⟩

/-- The world in which the next collection is one of the whole heap. -/
def wholly (w : World) : World := { w with heap := { w.heap with scope.nextFull := true } }

theorem wholly_collectors (w : World) : w.wholly.heap.collectors = w.heap.collectors := rfl

theorem Reachable.wholly (reachable : w.Reachable) : w.wholly.Reachable :=
  reachable.step (.noted w.heap.demand true w.heap.disabled w.heap.program.shortages)

/-- Twenty-one steps of the first program's collector complete such a collection. -/
theorem wholly_ends : (sample.wholly.rounds 21).1.fault.isNone = true ∧ (sample.wholly.rounds 21).1.isOver = true ∧
    (sample.wholly.rounds 21).2.lastFull = true ∧ largeAt ∈ (sample.wholly.rounds 21).2.program.roots ∧
    (sample.wholly.rounds 21).2.spaces.large.pages.extent.holds largeAt = true ∧
    (sample.wholly.rounds 21).2.spaces.plan = .generational ∧
    ((sample.wholly.rounds 21).2.spaces.ledgerOf .second).reserved = 16 := by
  decide +kernel

/-- The counter of the mature store tells how many blocks have objects. -/
theorem Reclaimed.blocks {n : Nat} (reclaimed : w.Reclaimed h) (generational : h.spaces.plan = .generational)
    (pages : (h.spaces.ledgerOf .second).reserved.toNat = 16 * n) : ∃ x, h.spaces.second = .mature x ∧
      {b | b ∈ x.blocks ∧ ∃ a ∈ {a | h.Leads a}, b.Contains a}.ncard = n := by
  obtain ⟨x, second⟩ := Spaces.generational_iff.mp generational
  have counted := (reclaimed.mature x second).reserved
  simp only [Spaces.ledgerOf, Spaces.space, second, Space.ledger] at pages
  exact ⟨x, second, by omega⟩

/-- In the first program, the large object is left, and one block, that of the copy of the young object: the block of the mature
object is given back. -/
theorem sample_reclaims_exactly : ∃ h, sample.wholly.Reclaimed h ∧ h.spaces.large.treadmill.Lists largeAt ∧ ∃ x, h.spaces.second = .mature x ∧
    {b | b ∈ x.blocks ∧ ∃ a ∈ {a | h.Leads a}, b.Contains a}.ncard = 1 := by
  obtain ⟨calm, ended, whole, root, inside, plan, pages⟩ := wholly_ends
  have manned : sample.wholly.heap.collectors = some (sample.wholly.heap.collectors.getD #[]) := by
    rw [wholly_collectors]
    exact sample_manned
  have each : ∀ t : Crew × Heap, Crew.Run (.ofCollectors (sample.wholly.heap.collectors.getD #[]), sample.wholly.heap.stopped) t →
      t.1.isOver = true → t.2.lastFull = true → sample.wholly.Reclaimed t.2 := fun (_, _) run ended whole =>
    reclaimed_resumed.mp (sample_reachable.wholly.reclaims_exactly manned run ended whole)
  have reclaimed := each _ (sample.wholly.rounds_run 21 (Option.isNone_iff_eq_none.mp calm)) ended whole
  exact ⟨_, reclaimed, (reclaimed.large.listed _).mpr ⟨.root root (by decide), inside⟩, reclaimed.blocks plan (congrArg UInt64.toNat pages)⟩

end World

end TracingHeap

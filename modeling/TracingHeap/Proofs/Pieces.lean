import Mathlib.Data.List.Pairwise
import TracingHeap.Proofs.Allotments

/-! Pieces are memory that was handed to the program or to a copy and has not been taken back. Each has a
room of its own, so what is written in one piece is not noticed in another, and no two pieces start in the
same granule of a side table. -/

namespace TracingHeap

open List Memory

/-- Memory that was handed out: where it starts, how much was asked for, the space and the room it has
there, and whether an object was made of it. -/
structure Piece where
  start : Address
  bytes : Nat
  home : SpaceId
  span : Span
  isObject : Bool
  deriving DecidableEq

namespace Piece

/-- The room of a piece. -/
def held (p : Piece) : SpaceId × Span := (p.home, p.span)

/-- The piece lies in its room, close to the start of it, and takes at least one granule. -/
structure Placed (p : Piece) : Prop where
  aligned : p.start.toNat % 8 = 0
  low : p.span.lo ≤ p.start.toNat
  near : p.start.toNat ≤ p.span.lo + 8
  high : p.start.toNat + p.bytes ≤ p.span.hi
  room : p.start.toNat + 16 ≤ p.span.hi

end Piece

namespace Spaces

/-- The pieces share out, with what allocators have at hand, all memory that was handed out. -/
structure Held (s : Spaces) (m : Memory) (pieces : List Piece) (buffers : List (SpaceId × Span))
    (keys : List (Nat × Address)) : Prop where
  estate : s.Estate m (pieces.map Piece.held) buffers keys
  placed : ∀ p ∈ pieces, p.Placed

variable {s s' : Spaces} {m m' : Memory} {pieces pieces' : List Piece} {buffers buffers' : List (SpaceId × Span)}
  {keys keys' : List (Nat × Address)} {p q : Piece}

theorem Held.of_perm (held : s.Held m pieces buffers keys) (same : pieces' ~ pieces) (sameBuffers : buffers' ~ buffers)
    (sameKeys : keys' ~ keys) : s.Held m pieces' buffers' keys' :=
  ⟨held.estate.of_perm (same.map _) sameBuffers sameKeys, fun p member => held.placed p (same.mem_iff.mp member)⟩

theorem Held.housed (held : s.Held m pieces buffers keys) (member : p ∈ pieces) : s.Houses p.home p.span := by
  obtain ⟨lists, stocked, -⟩ := held.estate.stocked
  exact stocked.housed p.held (mem_map_of_mem member)

theorem Held.issued (held : s.Held m pieces buffers keys) (member : p ∈ pieces) : s.Issued p.home p.span :=
  (held.housed member).issued held.estate.gridded

theorem Held.whole (held : s.Held m pieces buffers keys) (member : p ∈ pieces) : p.span.Whole :=
  (held.housed member).whole held.estate.laid held.estate.gridded

theorem Held.within (held : s.Held m pieces buffers keys) (member : p ∈ pieces) :
    p.span.Within (s.space p.home).extent.span :=
  held.estate.supplied.issued_within (held.issued member)

/-- A piece lies in its space and in no other. -/
theorem Held.inside (held : s.Held m pieces buffers keys) (member : p ∈ pieces) :
    (s.space p.home).extent.span.lo ≤ p.start.toNat ∧ p.start.toNat < (s.space p.home).extent.span.hi := by
  have within := held.within member
  have placed := held.placed p member
  have low := placed.low
  have room := placed.room
  unfold Span.Within at within
  omega

theorem Held.holding (held : s.Held m pieces buffers keys) (member : p ∈ pieces) :
    s.holding? p.start = some p.home :=
  held.estate.laid.holding (held.inside member).1 (held.inside member).2

/-- Addresses of pieces are far from the end of all addresses. -/
theorem Held.bound (held : s.Held m pieces buffers keys) (member : p ∈ pieces) : p.span.hi < 2 ^ 63 := by
  have within := held.within member
  have fits := (held.estate.laid.placed p.home).fits
  simp only [Span.Within, Extent.span, Span.ofBytes] at within
  omega

theorem Held.apart (held : s.Held m pieces buffers keys) (member : p ∈ pieces) (member' : q ∈ pieces)
    (differ : p ≠ q) : p.span.Apart q.span := by
  obtain ⟨lists, stocked, -⟩ := held.estate.stocked
  have pairs := (pairwise_append.mp (pairwise_append.mp stocked.apart).1).1
  have : Std.Symm fun a b : Piece => a.held.2.Apart b.held.2 := ⟨fun _ _ apart => apart.symm⟩
  exact (pairwise_map.mp pairs).forall member member' differ

/-- Pieces start at least a granule apart from each other. -/
theorem Held.far (held : s.Held m pieces buffers keys) (member : p ∈ pieces) (member' : q ∈ pieces)
    (differ : p ≠ q) : p.start.toNat + 16 ≤ q.start.toNat ∨ q.start.toNat + 16 ≤ p.start.toNat := by
  have apart := held.apart member member' differ
  have placed := held.placed p member
  have placed' := held.placed q member'
  have := placed.low
  have := placed.room
  have := placed'.low
  have := placed'.room
  unfold Span.Apart at apart
  omega

theorem Held.start_inj (held : s.Held m pieces buffers keys) (member : p ∈ pieces) (member' : q ∈ pieces)
    (same : p.start = q.start) : p = q := by
  refine Decidable.byContradiction fun differ => ?_
  have far := held.far member member' differ
  rw [same] at far
  omega

/-- No piece is held twice. -/
theorem Held.fresh (held : s.Held m (p :: pieces) buffers keys) (member : q ∈ pieces) : q ≠ p := by
  rintro rfl
  obtain ⟨lists, stocked, -⟩ := held.estate.stocked
  have pairs := (pairwise_append.mp (pairwise_append.mp stocked.apart).1).1
  rw [map_cons, pairwise_cons] at pairs
  have apart : q.span.Apart q.span := pairs.1 q.held (mem_map_of_mem member)
  have placed := held.placed q mem_cons_self
  have low := placed.low
  have room := placed.room
  unfold Span.Apart at apart
  omega

/-- A write inside one piece is not noticed in the others. -/
theorem Held.write (held : s.Held m pieces buffers keys) (member : p ∈ pieces) (agree : AgreeOff m m' p.span) :
    s.Held m' pieces buffers keys ∧ ∀ q ∈ pieces, q ≠ p → AgreeOn m m' q.span := by
  have split := perm_cons_erase member
  have front : s.Estate m (p.held :: (pieces.erase p).map Piece.held) buffers keys :=
    held.estate.of_perm ((split.map Piece.held).symm) (.refl _) (.refl _)
  obtain ⟨written, -⟩ := front.write agree
  exact ⟨⟨written.of_perm (split.map Piece.held) (.refl _) (.refl _), held.placed⟩,
    fun q other differ => agree.agreeOn (held.apart member other (Ne.symm differ))⟩

/-- One more piece, in a room that was handed out for it. -/
theorem Held.add {id : SpaceId} {room : Span} (estate : s'.Estate m' ((id, room) :: pieces.map Piece.held) buffers' keys')
    (placed : ∀ p ∈ pieces, p.Placed) (fresh : p.Placed) (home : p.home = id) (span : p.span = room) :
    s'.Held m' (p :: pieces) buffers' keys' := by
  refine ⟨?_, ?_⟩
  · rw [map_cons, Piece.held, home, span]
    exact estate
  · intro q member
    rcases mem_cons.mp member with rfl | member
    · exact fresh
    · exact placed q member

/-! ### Pieces of the mature store -/

theorem Held.cell {x : MarkSweepSpace} (held : s.Held m pieces buffers keys) (member : p ∈ pieces)
    (home : p.home = .second) (second : s.second = .mature x) :
    ∃ b ∈ x.blocks, ∃ k < b.count, p.span = b.cell k := by
  have housed := held.housed member
  simp only [home, Houses, space, second] at housed
  obtain ⟨sizeClass, b, inside, -, k, small, same⟩ := housed
  exact ⟨b, inside, k, small, same⟩

end Spaces

namespace MarkSweepSpace

variable {x : MarkSweepSpace}

/-- Every address in a cell leads to the start of the cell. -/
theorem Gridded.cellOf_total (gridded : x.Gridded) (placed : x.pages.extent.Placed) (sound : x.pages.Sound)
    (positive : 0 < x.pages.extent.start.toNat) {b : Block} (member : b ∈ x.blocks) {k : Nat} (inside : k < b.count)
    {a : Address} (low : (b.cell k).lo ≤ a.toNat) (high : a.toNat < (b.cell k).hi) :
    ∃ cell, x.cellOf a = .ok cell ∧ cell.toNat = (b.cell k).lo := by
  have within := b.cell_within inside
  obtain ⟨run, live, pages, start⟩ := gridded.live b member
  have held := sound.spanOf_within live
  obtain ⟨starts, classes⟩ := gridded.tables b member a (Nat.le_trans within.1 low)
    (Nat.lt_of_lt_of_le high within.2)
  have known := gridded.classes b member
  have low' : x.pages.extent.span.lo ≤ a.toNat := by
    simp only [Span.Within, Block.span, Pages.Runs.spanOf] at within held start
    omega
  have high' : a.toNat < x.pages.extent.span.hi := by
    simp only [Span.Within, Block.span, Pages.Runs.spanOf, pages] at within held start
    omega
  have present : b.start.word ≠ 0 := by
    intro zero
    have null : b.start.toNat = 0 := by
      rw [Address.toNat, zero]
      rfl
    simp only [Pages.Runs.spanOf] at start
    omega
  have index : (UInt64.ofNat b.sizeClass).toNat = b.sizeClass := by
    rw [UInt64.toNat_ofNat']
    exact Nat.mod_eq_of_lt (by omega)
  have loaded := gridded.starts.load_total placed (k := 12) rfl (by decide) low' high'
  have loaded' := gridded.classNumbers.load_total placed (k := 12) rfl (by decide) low' high'
  have listed : b.sizeClass < SizeClass.sizes.size := known
  have sized : cellSize b.sizeClass = .ok SizeClass.sizes[b.sizeClass] :=
    cellSize_ok.mpr (Array.getElem?_eq_getElem listed)
  have below : b.start.toNat ≤ a.toNat := Nat.le_trans within.1 low
  have away : a.distance b.start = .ok (a.word - b.start.word) := Address.distance_ok.mpr ⟨below, rfl⟩
  have ok : x.cellOf a = .ok ⟨b.start.word + (a.word - b.start.word) / SizeClass.sizes[b.sizeClass] *
      SizeClass.sizes[b.sizeClass]⟩ := by
    refine except_bind_ok.mpr ⟨_, loaded, ?_⟩
    rw [starts]
    simp only [if_neg present]
    refine except_bind_ok.mpr ⟨_, loaded', ?_⟩
    rw [classes, index]
    exact except_bind_ok.mpr ⟨_, sized, except_bind_ok.mpr ⟨_, away, rfl⟩⟩
  exact ⟨_, ok, gridded.cellOf member inside low high ok⟩

end MarkSweepSpace

namespace Spaces

variable {s : Spaces} {m : Memory} {pieces : List Piece} {buffers : List (SpaceId × Span)}
  {keys : List (Nat × Address)} {p : Piece}

/-- A piece of the mature store leads to the start of its cell. -/
theorem Held.cellOf {x : MarkSweepSpace} (held : s.Held m pieces buffers keys) (member : p ∈ pieces)
    (home : p.home = .second) (second : s.second = .mature x) :
    ∃ cell, x.cellOf p.start = .ok cell ∧ cell.toNat = p.span.lo := by
  obtain ⟨b, inside, k, small, same⟩ := held.cell member home second
  have placed := held.placed p member
  have laid := held.estate.laid.placed .second
  have positive := held.estate.laid.positive .second (by decide)
  have sound := held.estate.supplied .second
  simp only [space, second, Space.extent, Sourced] at laid positive sound
  have low := placed.low
  have room := placed.room
  rw [same] at low room
  obtain ⟨cell, ok, at_start⟩ := (held.estate.gridded x second).cellOf_total laid sound positive inside small low
    (by omega)
  exact ⟨cell, ok, by rw [at_start, same]⟩

end Spaces

end TracingHeap

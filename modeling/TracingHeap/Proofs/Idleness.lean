import TracingHeap.Proofs.Openings

/-! The heap between collections. Memory is shared out between the pieces, the allocators of the mutators and
those of the collectors; nothing is forwarded, and what the program knows refers to what it knows. In a
generational heap every object outside of the nursery that refers into it is remembered. -/

namespace TracingHeap

open List Memory Work

namespace AllocatorSet

variable {s : AllocatorSet} {spaces : Spaces} {id : SpaceId} {k : Nat}

theorem resetCells_bound (s : AllocatorSet) : s.BoundAlike s.resetCells := ⟨rfl, Array.size_map, rfl⟩

theorem resetCells_formed (formed : s.Formed spaces) : s.resetCells.Formed spaces := by
  refine ⟨formed.bumps, fun c member => ?_⟩
  obtain ⟨_, -, rfl⟩ := Array.mem_map.mp member
  rfl

theorem new_keys {key : Nat × Address} (member : key ∈ CellAllocator.new.keys) : key.2 = .null := by
  obtain ⟨i, inside, rfl⟩ := mem_mapIdx.mp member
  simp only [CellAllocator.new, Array.toList_replicate, getElem_replicate]

theorem resetCells_keys {key : Nat × Address} (member : key ∈ s.resetCells.keys) : key.2 = .null := by
  simp only [keys, resetCells, Array.toList_map, mem_flatMap, mem_map] at member
  obtain ⟨_, ⟨_, -, rfl⟩, inner⟩ := member
  exact new_keys inner

theorem rebindBump_formed (formed : s.Formed spaces) (bumpable : spaces.Bumpable id) :
    (s.rebindBump k id).Formed spaces := by
  refine ⟨fun b member => ?_, formed.cells⟩
  obtain ⟨i, inside, rfl⟩ := Array.mem_iff_getElem.mp member
  simp only [rebindBump, Array.getElem_modify]
  split
  · exact bumpable
  · exact formed.bumps _ (Array.getElem_mem _)

theorem toList_rebindBump (s : AllocatorSet) (k : Nat) (id : SpaceId) :
    (s.rebindBump k id).bumps.toList = s.bumps.toList.modify k fun _ => .new id := by
  rw [rebindBump, Array.toList_modify]
  rfl

theorem rebindBump_buffers (s : AllocatorSet) (k : Nat) (id : SpaceId) : (s.rebindBump k id).buffers <+ s.buffers := by
  rw [buffers, buffers, toList_rebindBump]
  generalize s.bumps.toList = items
  induction items generalizing k with
  | nil => cases k <;> exact .refl _
  | cons b rest ih =>
    cases k with
    | zero =>
      rw [modify_zero_cons, flatMap_cons, flatMap_cons]
      exact (nil_sublist _).append (.refl _)
    | succ k =>
      rw [modify_succ_cons, flatMap_cons, flatMap_cons]
      exact (Sublist.refl _).append (ih k)

end AllocatorSet

namespace Spaces

variable {s : Spaces} {m : Memory} {pieces : List Piece} {rooms buffers buffers' : List (SpaceId × Span)}
  {keys kept nulls : List (Nat × Address)}

/-- Memory that was taken out of the spaces may be dropped. -/
theorem Estate.shed (estate : s.Estate m rooms buffers keys) (fewer : buffers' <+ buffers) (kept_ : kept <+ keys)
    (empty : ∀ key ∈ nulls, key.2 = .null) : s.Estate m rooms buffers' (kept ++ nulls) := by
  obtain ⟨lost, split⟩ := fewer.exists_perm_append
  obtain ⟨dropped, split'⟩ := kept_.exists_perm_append
  have drop_buffers : ∀ (lost buffers : List (SpaceId × Span)) {keys}, s.Estate m rooms (lost ++ buffers) keys →
      s.Estate m rooms buffers keys := by
    intro lost buffers keys estate
    induction lost with
    | nil => exact estate
    | cons b lost ih => exact ih estate.drop_buffer
  have drop_keys : ∀ (dropped keys : List (Nat × Address)) {buffers}, s.Estate m rooms buffers (dropped ++ keys) →
      s.Estate m rooms buffers keys := by
    intro dropped keys buffers estate
    induction dropped with
    | nil => exact estate
    | cons key dropped ih => exact ih estate.drop_key
  have start : s.Estate m rooms buffers' kept := drop_keys dropped kept (drop_buffers lost buffers'
    (estate.of_perm (.refl _) (perm_append_comm.trans split.symm) (perm_append_comm.trans split'.symm)))
  suffices front : s.Estate m rooms buffers' (nulls ++ kept) from
    front.of_perm (.refl _) (.refl _) perm_append_comm
  induction nulls with
  | nil => exact start
  | cons key rest ih =>
    obtain ⟨sizeClass, head⟩ := key
    obtain rfl : head = .null := empty _ mem_cons_self
    exact (ih fun key member => empty key (mem_cons_of_mem _ member)).null_key sizeClass

theorem Held.shed (held : s.Held m pieces buffers keys) (fewer : buffers' <+ buffers) (kept_ : kept <+ keys)
    (empty : ∀ key ∈ nulls, key.2 = .null) : s.Held m pieces buffers' (kept ++ nulls) :=
  ⟨held.estate.shed fewer kept_ empty, held.placed⟩

end Spaces

namespace Mutator

/-- The allocators of a mutator, without memory. -/
def unused (current : SpaceId) : Plan → AllocatorSet
  | .generational => ⟨#[.new current, .new .immortal], #[.new], 1⟩
  | .semispace => ⟨#[.new current, .new .immortal], #[], 1⟩

theorem unused_rebind {current current' : SpaceId} {plan : Plan} {s : AllocatorSet}
    (bound : (unused current plan).BoundAlike s) : (unused current' plan).BoundAlike (s.rebindBump 0 current') := by
  obtain ⟨bumps, cells, larges⟩ := bound
  refine ⟨?_, ?_, ?_⟩
  · rw [AllocatorSet.toList_rebindBump]
    have shape : s.bumps.toList.map (·.space) = [current, .immortal] := by
      rw [bumps]
      cases plan <;> rfl
    obtain ⟨b, rest, split⟩ : ∃ b rest, s.bumps.toList = b :: rest := by
      cases split : s.bumps.toList with
      | nil => rw [split] at shape; cases shape
      | cons b rest => exact ⟨b, rest, rfl⟩
    rw [split] at shape ⊢
    rw [map_cons, cons.injEq] at shape
    rw [modify_zero_cons, map_cons, shape.2]
    cases plan <;> rfl
  · rw [AllocatorSet.rebindBump, cells]
    cases plan <;> rfl
  · rw [AllocatorSet.rebindBump, larges]
    cases plan <;> rfl

end Mutator

theorem CopyContext.unused_rebind {current current' : SpaceId} {s : AllocatorSet}
    (bound : (unused current .semispace).BoundAlike s) : (unused current' .semispace).BoundAlike (s.rebindBump 0 current') := by
  obtain ⟨bumps, cells, larges⟩ := bound
  refine ⟨?_, cells, larges⟩
  rw [AllocatorSet.toList_rebindBump]
  cases split : s.bumps.toList with
  | nil => rw [split] at bumps; cases bumps
  | cons b rest =>
    rw [split, map_cons] at bumps
    injection bumps with first none_left
    rw [modify_zero_cons, map_cons, none_left]
    rfl

namespace Heap

/-- The objects that the barrier has recorded since the last collection: those that the mutators remember
themselves, then those that they have handed over. -/
def recorded (h : Heap) : List Address :=
  h.program.mutators.toList.flatMap (·.remembered.toList) ++ h.backlog.remembered.flatMap Array.toList

theorem mem_recorded {h : Heap} {a : Address} : a ∈ h.recorded ↔
    (∃ packet ∈ h.backlog.remembered, a ∈ packet) ∨ ∃ m ∈ h.program.mutators, a ∈ m.remembered := by
  simp only [recorded, mem_append, mem_flatMap, Array.mem_toList_iff]
  exact or_comm

/-- An object that a collection of young objects alone takes to be live. -/
def Aged (h : Heap) (o : Piece) : Prop :=
  o.home ≠ .first ∧ (o.home = .large → o.start ∈ h.spaces.large.treadmill.survivors)

end Heap

/-- The collector takes part in no collection. -/
def Collector.Idle (c : Collector) : Prop := c.state = .unused ∨ c.state = .released

/-- The memory of a heap between collections. -/
structure Quiet (h : Heap) (cs : List Collector) (pieces : List Piece) : Prop where
  held : h.spaces.Held h.memory pieces (cs.flatMap Collector.buffers ++ h.buffers) (cs.flatMap Collector.keys ++ h.keys)
  tracked : h.spaces.Tracked pieces
  mutators : ∀ m ∈ h.program.mutators,
    m.allocators.Formed h.spaces ∧ (Mutator.unused h.current h.plan).BoundAlike m.allocators
  collectors : ∀ c ∈ cs, c.copies.Aimed h ∧ c.Idle
  unforwarded : ∀ id x, h.spaces.space id = .copying x → ∀ a : Address, x.pages.extent.span.lo ≤ a.toNat →
    a.toNat < x.pages.extent.span.hi → x.forwarding.states.entryByte a = 0
  rested : ∀ id, (h.spaces.space id).region.prepared = false
  settled : ∀ o, o ∉ h.spaces.large.treadmill.young ∧ o ∉ h.spaces.large.treadmill.old
  half : h.plan = .semispace → ∀ p ∈ pieces, p.home ≠ h.other
  vacant : h.plan = .semispace → ∀ x, h.spaces.space h.other = .copying x → x.pages = .new x.pages.extent
  stamping : h.spaces.Stamping

/-- No mark is an old one. -/
theorem Quiet.mature {h : Heap} {cs : List Collector} {pieces : List Piece} (quiet : Quiet h cs pieces) (x : MarkSweepSpace)
    (second : h.spaces.second = .mature x) (a : Address) (low : x.pages.extent.span.lo ≤ a.toNat)
    (high : a.toNat < x.pages.extent.span.hi) : x.marks.entryByte a = 0 ∨ x.marks.entryByte a = x.current := by
  refine ((quiet.tracked.mature x second).entries a low high).imp_right fun ⟨value, _⟩ => value.resolve_right fun ⟨prepared, _⟩ => ?_
  have idle := quiet.rested .second
  simp only [Spaces.space, second, Space.region, prepared, Bool.true_eq_false] at idle

/-- What the program knows in a heap between collections. -/
structure Knows (h : Heap) (pieces objects : List Piece) : Prop where
  known : ∀ o ∈ objects, o ∈ pieces ∧ o.isObject = true ∧ o.start ≠ .null
  shaped : ∀ o ∈ objects, 16 ≤ o.bytes ∧ 8 + 8 * h.memory.fields o.start ≤ o.bytes
  movable : ∀ o ∈ objects, ∀ x, h.spaces.space o.home = .copying x →
    (h.memory.header o.start).size.toNat = o.bytes ∧ o.bytes ≤ 8192
  fields : ∀ o ∈ objects, ∀ i < h.memory.fields o.start,
    h.memory.field o.start i = .null ∨ ∃ q ∈ objects, h.memory.field o.start i = q.start
  roots : ∀ a ∈ h.program.roots, a = .null ∨ ∃ q ∈ objects, a = q.start
  immortal : ∀ o ∈ objects, o.home = .immortal → h.spaces.immortal.marks.entryByte o.start = h.spaces.immortal.current
  recorded : ∀ a ∈ h.recorded, ∃ o ∈ objects, a = o.start ∧ h.plan.watches o.home = true
  old : h.plan = .generational → ∀ o ∈ objects, o.home ≠ .first → o.start ∈ h.recorded ∨
    ∀ i < h.memory.fields o.start, h.memory.field o.start i = .null ∨
      ∃ q ∈ objects, h.memory.field o.start i = q.start ∧ h.Aged q

/-- What the write barrier has noted between collections: the collector's byte of every object tells whether the next
store to it has to be recorded, and no object is recorded twice. -/
structure Logged (h : Heap) (pieces : List Piece) : Prop where
  stamped : ∀ p ∈ pieces, p.isObject = true →
    ∃ unlogged, p.Stamped h.memory unlogged ∧ (unlogged = true ↔ h.plan.watches p.home = true ∧ p.start ∉ h.recorded)
  single : h.recorded.Nodup

end TracingHeap

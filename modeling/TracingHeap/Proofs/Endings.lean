import Mathlib.Data.List.Flatten
import TracingHeap.Proofs.Releases

/-! Where a collection ends. When the closure owes nothing any more, the release takes back what was not reached, and the
heap is between collections again: nothing is forwarded or recorded, and every piece that stays has its memory. -/

namespace TracingHeap

open List Memory Work

/-! ### After the closure -/

/-- A heap whose closure is over, with the collectors that carried it out: `h₁` is the heap that the closure started from, and
`h₀` the one that the collection started from. -/
structure Heap.Traced (h₀ h₁ h : Heap) (cs₀ cs : List Collector) (pieces₀ known pieces : List Piece) (full : Bool) : Prop where
  opened : ∃ cs₁, h₀.Opened h₁ cs₀ cs₁ full
  sound : Outset.Sound ⟨h₁, pieces₀, known⟩
  laboured : h₁.Laboured h
  shared : Team.Shared cs h pieces
  closing : Closing ⟨h₁, pieces₀, known⟩ h pieces (fun _ => False) (fun _ => False) fun _ => False
  spent : Team.Spent cs h

theorem Crew.Begun.traced {h₀ h : Heap} {cs₀ cs : List Collector} {pieces₀ known pieces : List Piece}
    (begun : Begun 0 h₀ cs₀ pieces₀ known 5 h cs pieces) : ∃ h₁ full, h₀.Traced h₁ h cs₀ cs pieces₀ known pieces full := by
  cases begun with
  | each _ two => omega
  | once _ bad => exact bad.elim
  | @closed g cs₁ _ _ _ begun same sound laboured shared closing spent =>
    obtain ⟨heap, pieces₁, known₁⟩ := g
    obtain ⟨rfl, full, opened⟩ := begun.opened
    cases same
    exact ⟨heap, full, ⟨_, opened⟩, sound, laboured, shared, closing, spent⟩

/-! ### The allocators -/

theorem AllocatorSet.mem_buffers {s : AllocatorSet} {b : SpaceId × Span} (member : b ∈ s.buffers) :
    b.1 ∈ s.bumps.toList.map (·.space) := by
  obtain ⟨bump, inside, own⟩ := mem_flatMap.mp member
  rw [BumpAllocator.buffer] at own
  split at own
  · cases own
  · rw [mem_singleton.mp own]
    exact mem_map_of_mem inside

/-- A mutator that was released has memory in the immortal space only. -/
theorem Mutator.released_buffers {m : Mutator} {current current' : SpaceId} {plan : Plan}
    (bound : (unused current plan).BoundAlike m.allocators) {b : SpaceId × Span}
    (member : b ∈ (m.released current').allocators.buffers) : b.1 = .immortal := by
  have shape : m.allocators.bumps.toList.map (·.space) = [current, .immortal] := by
    rw [bound.bumps]
    cases plan <;> rfl
  rw [released, AllocatorSet.buffers, AllocatorSet.toList_rebindBump] at member
  cases bumps : m.allocators.bumps.toList with
  | nil =>
    rw [bumps] at shape
    cases shape
  | cons first rest =>
    rw [bumps, map_cons, cons.injEq] at shape
    rw [bumps, modify_zero_cons, flatMap_cons] at member
    rcases mem_append.mp member with bad | member
    · cases bad
    · obtain ⟨bump, inside, own⟩ := mem_flatMap.mp member
      rw [BumpAllocator.buffer] at own
      split at own
      · cases own
      · rw [mem_singleton.mp own]
        have there := mem_map_of_mem (f := BumpAllocator.space) inside
        rw [shape.2] at there
        exact mem_singleton.mp there

/-! ### Spaces after a release -/

namespace Spaces.Freed

variable {s s' : Spaces} {m m' : Memory} {full : Bool} {pieces kept : List Piece} {buffers : List (SpaceId × Span)}
  {keys : List (Nat × Address)}

theorem freshMark (freed : s.Freed s' m m' full kept buffers keys) (id : SpaceId) :
    (s'.space id).freshMark = (s.space id).freshMark := by
  have copying : ∀ {y}, s'.space id = .copying y → (Space.copying y).freshMark = (s.space id).freshMark := by
    intro y space
    obtain ⟨-, x, space', extent⟩ := freed.copying id y space
    rw [space', Space.freshMark, Space.freshMark, CopySpace.freshMark, CopySpace.freshMark, extent]
  cases id with
  | first => exact copying rfl
  | second =>
    cases second : s'.second with
    | twin y =>
      have space : s'.space .second = .copying y := by rw [Spaces.space, second]
      rw [space]
      exact copying space
    | mature y =>
      obtain ⟨-, x, second', extent, region⟩ := freed.mature y second
      have logged : y.region.logged = x.region.logged := by rw [region]; cases full <;> rfl
      simp only [Spaces.space, second, second', Space.freshMark, MarkSweepSpace.freshMark, extent, logged]
  | immortal =>
    simp only [Spaces.space, Space.freshMark, ImmortalSpace.freshMark, freed.immortal.2]
    rw [freed.immortal.1]
  | large =>
    simp only [Spaces.space, Space.freshMark, LargeSpace.freshMark, freed.extent]
    rw [freed.large]
    rfl

/-- The lists of large objects name what is left of them. -/
theorem tracked (freed : s.Freed s' m m' full kept buffers keys) (tracked : s.Tracked pieces)
    (saved : ∀ p ∈ kept, p.home = .large → p.isObject = true → p.start ∈ s.large.treadmill.survivors)
    (complete : ∀ p ∈ pieces, p.home = .large → p.isObject = true → p.start ∈ s.large.treadmill.survivors → p ∈ kept)
    (none_fresh : ∀ o, o ∉ s.large.treadmill.fresh) (none_old : full = false → ∀ o, o ∉ s.large.treadmill.old)
    (rested : ∀ id, (s'.space id).region.prepared = false) : s'.Tracked kept := by
  have lists : s'.large.treadmill.fresh = s.large.treadmill.fresh ∧
      s'.large.treadmill.survivors = s.large.treadmill.survivors ∧ s'.large.current = s.large.current := by
    rw [freed.large]
    exact ⟨rfl, rfl, rfl⟩
  have settled : ∀ o, o ∉ s'.large.treadmill.young ∧ o ∉ s'.large.treadmill.old := fun o => by
    rw [freed.large]
    refine ⟨Std.TreeSet.not_mem_emptyc, ?_⟩
    cases full with
    | true => exact Std.TreeSet.not_mem_emptyc
    | false => exact none_old rfl o
  refine ⟨fun id y space => ?_, fun y second => (freed.mature y second).1, fun y second prepared => ?_, ?_, ?_⟩
  · exact (freed.copying id y space).1.tracked id kept
  · have idle := rested .second
    simp only [space, second, Space.region, prepared, Bool.true_eq_false] at idle
  · rw [freed.immortal.1]
    exact ⟨tracked.immortal.table, tracked.immortal.current⟩
  · refine ⟨by rw [freed.extent]; exact freed.beside, by rw [lists.2.2]; exact tracked.large.current, fun o bad => ?_,
      fun o on => ?_, fun o bad => absurd bad (settled o).1, fun o bad => absurd bad (settled o).2, fun o on => ?_,
      fun p member home object => ?_⟩
    · rw [lists.1] at bad
      exact absurd bad (none_fresh o)
    · rw [lists.2.1] at on
      obtain ⟨p, member, home, object, rfl⟩ := tracked.large.listed o (.inr (.inl on))
      rw [freed.marks p (complete p member home object on) home, lists.2.2]
      exact tracked.large.survivors _ on
    · rw [lists.1, lists.2.1] at on
      rcases on with bad | on | bad | bad
      · exact absurd bad (none_fresh o)
      · obtain ⟨p, member, home, object, rfl⟩ := tracked.large.listed o (.inr (.inl on))
        exact ⟨p, complete p member home object on, home, object, rfl⟩
      · exact absurd bad (settled o).1
      · exact absurd bad (settled o).2
    · rw [lists.2.1]
      exact .inr (.inl (saved p member home object))

end Spaces.Freed

/-- A collection enters the spaces that it reclaims memory in, and no other ones. -/
theorem Heap.Set.engaged {h h' : Heap} {full : Bool} (set : h.Set h' full)
    (rested : ∀ id, (h.spaces.space id).region.prepared = false) (id : SpaceId) :
    (h'.spaces.space id).region.prepared = h'.spaces.engages h'.lastFull h'.other id := by
  have idle := rested id
  rw [lastFull, set.plan, other, set.scope, nextScope, set.spaces, Heap.plan, Spaces.plan]
  cases second : h.spaces.second with
  | mature x =>
    simp only [Spaces.readied, second, Spaces.engages, Spaces.emptied]
    cases id with
    | first | large => rfl
    | second =>
      simp only [Spaces.space, second, Space.region] at idle ⊢
      cases full <;> [exact idle; rfl]
    | immortal =>
      simp only [Spaces.space, Space.region] at idle ⊢
      cases full <;> [exact idle; rfl]
  | twin x =>
    simp only [Spaces.readied, second, Spaces.engages, Spaces.emptied]
    cases id with
    | first =>
      simp only [Spaces.space, Space.region] at idle ⊢
      cases h.scope.flipped <;> [rfl; exact idle]
    | second =>
      simp only [Spaces.space, second, Space.region] at idle ⊢
      cases h.scope.flipped <;> [exact idle; rfl]
    | immortal | large => rfl

/-! ### The release -/

/-- A collector after a collection; free cells are dropped before a sweep. -/
def Collector.released (c : Collector) (sweep : Bool) : Collector :=
  { c with
    state := .released
    copies := if sweep then c.copies.resetCells else c.copies }

theorem Heap.sweeps_iff (h : Heap) : h.sweeps = true ↔ h.plan = .generational ∧ h.scope.full = true := by
  rw [sweeps, nurseryOnly]
  cases h.plan <;> simp

/-- A heap after the release, with the collectors that were released. -/
structure Heap.Released (h h' : Heap) (cs cs' : List Collector) : Prop where
  frees : h.spaces.Frees h.memory h.lastFull h.other h'.spaces h'.memory
  heap : ∃ spaces memory nextFull, h' = { h with
    spaces, memory
    scope := { h.scope with nextFull }
    program := { h.program with mutators := h.program.mutators.map (·.released h.current) } }
  room : h.plan = .generational → ∃ available nursery, h'.pagesAvailable = .ok available ∧
    h'.settings.maxNurseryPages = .ok nursery ∧ h'.scope.nextFull = decide (available < nursery)
  collectors : cs' = cs.map (·.released h.sweeps)

theorem Crew.Begun.releases {h h' : Heap} {cs cs' : List Collector} {pieces known pieces' : List Piece}
    (begun : Begun 5 h cs pieces known 8 h' cs' pieces') : h.Released h' cs cs' := by
  obtain ⟨turned, h₁, mutators, released⟩ := begun.released
  have first := Heap.mutatorsRelease_ok mutators
  obtain ⟨spaces, memory, nextFull, frees, rfl, room⟩ := Heap.release_ok released
  subst first
  refine ⟨frees, ⟨spaces, memory, nextFull, rfl⟩, room, ?_⟩
  rw [← forall₂_eq_eq_eq, forall₂_map_right_iff]
  refine turned.flip.imp fun c' c took => ?_
  obtain ⟨-, rfl⟩ := Collector.release_ok took
  rw [Collector.released]
  simp only [h.sweeps_iff]

/-- The piece outlives the release: its space is not emptied, and if the collection covers it, then it was reached, or
its space reclaims nothing that is like it. -/
def Heap.Retains (h : Heap) (p : Piece) : Prop :=
  ¬ h.spaces.Evacuates p.home ∧ (h.Covered p → p.home = .immortal ∨ p.home = .large ∧ p.isObject = false ∨ h.spaces.Reached p)

theorem Heap.emptied_eq (h : Heap) : h.spaces.emptied h.other = match h.plan with
    | .generational => .first
    | .semispace => h.other := by
  rw [Spaces.emptied, Heap.plan, Spaces.plan]
  cases h.spaces.second <;> rfl

/-- The half that is emptied is not in use any more. -/
theorem Heap.current_ne (h : Heap) (semispace : h.plan = .semispace) : h.current ≠ h.spaces.emptied h.other := by
  rw [emptied_eq, semispace, current, semispace, other]
  cases h.scope.flipped <;> simp

section

variable {h₀ h₁ h h' : Heap} {cs₀ cs cs' : List Collector} {pieces₀ known pieces kept : List Piece} {full : Bool}
  {buffers : List (SpaceId × Span)} {keys : List (Nat × Address)}

namespace Heap.Traced

theorem plan (traced : h₀.Traced h₁ h cs₀ cs pieces₀ known pieces full) : h.plan = h₀.plan := by
  obtain ⟨_, opened⟩ := traced.opened
  exact traced.closing.kept.plan.trans opened.set.plan

/-- The space that ordinary objects were allocated in is the one that is emptied. -/
theorem evacuates (traced : h₀.Traced h₁ h cs₀ cs pieces₀ known pieces full) (id : SpaceId) :
    h.spaces.Evacuates id ↔ id = h.spaces.emptied h.other := by
  obtain ⟨_, opened⟩ := traced.opened
  have flipped : h.scope.flipped = h₁.scope.flipped := traced.laboured.mutators.2
  rw [opened.set.flipped] at flipped
  rw [traced.closing.kept.evacuates, opened.set.evacuates, h.emptied_eq, traced.plan, current]
  cases plan : h₀.plan with
  | generational => rfl
  | semispace =>
    rw [plan] at flipped
    simp only [other, flipped]
    cases h₀.scope.flipped <;> rfl

/-- Who holds memory after the release. -/
theorem buffers_unused (traced : h₀.Traced h₁ h cs₀ cs pieces₀ known pieces full) (quiet : Quiet h₀ cs₀ pieces₀)
    (released : h.Released h' cs cs') {b : SpaceId × Span} (member : b ∈ cs'.flatMap Collector.buffers ++ h'.buffers) :
    b.1 ≠ h.spaces.emptied h.other := by
  obtain ⟨_, opened⟩ := traced.opened
  rcases mem_append.mp member with taken | left
  · rw [released.collectors, flatMap_map] at taken
    obtain ⟨c, inside, own⟩ := mem_flatMap.mp taken
    have bound := (traced.shared.aimed c inside).bound
    have own : b ∈ c.copies.allocators.buffers := by
      rw [Collector.buffers, Collector.released] at own
      cases sweep : h.sweeps <;> rw [sweep] at own <;> exact own
    have place := AllocatorSet.mem_buffers own
    rw [bound.bumps] at place
    cases plan : h.plan with
    | generational =>
      rw [plan] at place
      exact absurd place not_mem_nil
    | semispace =>
      rw [plan] at place
      rw [mem_singleton.mp place]
      exact h.current_ne plan
  · obtain ⟨_, _, _, same⟩ := released.heap
    rw [same, Heap.buffers, Array.toList_map, flatMap_map, traced.laboured.mutators.1, opened.mutators, Array.toList_map,
      flatMap_map] at left
    obtain ⟨m, inside, own⟩ := mem_flatMap.mp left
    have bound : (Mutator.unused h₀.current h₀.plan).BoundAlike (m.readied h₁.sweeps).allocators := by
      refine (quiet.mutators m (Array.mem_toList_iff.mp inside)).2.trans ?_
      cases h₁.sweeps <;> [exact .refl _; exact AllocatorSet.resetCells_bound _]
    rw [Mutator.released_buffers bound own, h.emptied_eq, other]
    cases h.plan <;> cases h.scope.flipped <;> simp

theorem sweeps_eq (traced : h₀.Traced h₁ h cs₀ cs pieces₀ known pieces full) : h.sweeps = h₁.sweeps := by
  rw [sweeps, sweeps, traced.closing.kept.plan, traced.closing.kept.nursery]

/-- Nobody has free cells when the mature store is about to be swept. -/
theorem dropped (traced : h₀.Traced h₁ h cs₀ cs pieces₀ known pieces full) (released : h.Released h' cs cs')
    (sweeps : h.sweeps = true) : ∀ key ∈ cs'.flatMap Collector.keys ++ h'.keys, key.2 = .null := by
  obtain ⟨_, opened⟩ := traced.opened
  obtain ⟨_, _, _, same⟩ := released.heap
  intro key member
  rcases mem_append.mp member with taken | left
  · rw [released.collectors, sweeps, flatMap_map] at taken
    obtain ⟨c, -, own⟩ := mem_flatMap.mp taken
    exact AllocatorSet.resetCells_keys own
  · rw [same, Heap.keys, Array.toList_map, flatMap_map, traced.laboured.mutators.1, opened.mutators, ← traced.sweeps_eq,
      sweeps, Array.toList_map, flatMap_map] at left
    obtain ⟨m, -, own⟩ := mem_flatMap.mp left
    exact AllocatorSet.resetCells_keys own

/-- What the pieces, the collectors and the mutators hold as the spaces are released. -/
theorem held (traced : h₀.Traced h₁ h cs₀ cs pieces₀ known pieces full) (released : h.Released h' cs cs') :
    h.spaces.Held h.memory pieces (cs'.flatMap Collector.buffers ++ h'.buffers) (cs'.flatMap Collector.keys ++ h'.keys) := by
  obtain ⟨_, _, _, same⟩ := released.heap
  have fewer : cs'.flatMap Collector.buffers ++ h'.buffers <+ cs.flatMap Collector.buffers ++ h.buffers := by
    refine .append ?_ ?_
    · rw [released.collectors, flatMap_map]
      refine Sublist.flatMap_right _ fun c _ => ?_
      rw [Collector.buffers, Collector.released]
      cases h.sweeps <;> exact .refl _
    · rw [same, Heap.buffers, Array.toList_map, flatMap_map]
      exact Sublist.flatMap_right _ fun m _ => AllocatorSet.rebindBump_buffers _ 0 _
  cases sweeps : h.sweeps with
  | true =>
    have none_left : ([] : List (Nat × Address)) <+ cs.flatMap Collector.keys ++ h.keys := nil_sublist _
    have shed := traced.shared.held.shed fewer none_left (traced.dropped released sweeps)
    rwa [nil_append] at shed
  | false =>
    have keys : cs'.flatMap Collector.keys ++ h'.keys = cs.flatMap Collector.keys ++ h.keys := by
      rw [released.collectors, sweeps, same, Heap.keys, Array.toList_map, flatMap_map, flatMap_map]
      rfl
    have none_dropped : ∀ key ∈ ([] : List (Nat × Address)), key.2 = .null := fun _ bad => absurd bad not_mem_nil
    have shed := traced.shared.held.shed fewer (.refl _) none_dropped
    rwa [append_nil, ← keys] at shed

/-- What is retained may be spared. -/
theorem spared (traced : h₀.Traced h₁ h cs₀ cs pieces₀ known pieces full) (quiet : Quiet h₀ cs₀ pieces₀)
    (released : h.Released h' cs cs') (fewer : kept <+ pieces) (retained : ∀ p ∈ kept, h.Retains p) :
    h.spaces.Spared h.memory h.lastFull (h.spaces.emptied h.other) pieces kept (cs'.flatMap Collector.buffers ++ h'.buffers)
      (cs'.flatMap Collector.keys ++ h'.keys) where
  held := traced.held released
  tracked := traced.shared.tracked
  fewer := fewer
  moved p member := mt (traced.evacuates p.home).mpr (retained p member).1
  unused b member := traced.buffers_unused quiet released member
  still id other := mt (traced.evacuates id).mp other
  saved p member home object := by
    have reached := (retained p member).2 (by rw [covered_iff, home]; trivial)
    simp only [home, object, reduceCtorEq, false_or, and_false] at reached
    unfold Spaces.Reached at reached
    rwa [home] at reached
  marked whole x second p member home := by
    have plan : h.plan = .generational := by rw [Heap.plan, Spaces.plan, second]
    have reached := (retained p member).2 (by
      rw [covered_iff, home]
      rw [lastFull, plan] at whole
      simp [plan, whole])
    simpa only [home, reduceCtorEq, false_and, false_or] using reached
  dropped whole plan := traced.dropped released (h.sweeps_iff.mpr ⟨plan, by rwa [lastFull, show h.plan = _ from plan] at whole⟩)
  whole semispace := by rw [lastFull, show h.plan = _ from semispace]

/-- What is left of the spaces. -/
theorem freed (traced : h₀.Traced h₁ h cs₀ cs pieces₀ known pieces full) (quiet : Quiet h₀ cs₀ pieces₀)
    (released : h.Released h' cs cs') (fewer : kept <+ pieces) (retained : ∀ p ∈ kept, h.Retains p) :
    h.spaces.Freed h'.spaces h.memory h'.memory h.lastFull kept (cs'.flatMap Collector.buffers ++ h'.buffers)
      (cs'.flatMap Collector.keys ++ h'.keys) :=
  (traced.spared quiet released fewer retained).frees released.frees

/-- The collection covered what the phases before the closure have decided. -/
theorem scope_full (traced : h₀.Traced h₁ h cs₀ cs pieces₀ known pieces full) (generational : h.plan = .generational) :
    h.scope.full = full := by
  obtain ⟨_, opened⟩ := traced.opened
  obtain ⟨_, _, _, _, _, _, _, _, same⟩ := traced.laboured
  rw [same]
  change h₁.scope.full = full
  rw [opened.set.scope, nextScope, ← traced.plan, generational]

/-- A collection of young objects alone leaves no large object on the list of the old ones. -/
theorem old_empty (traced : h₀.Traced h₁ h cs₀ cs pieces₀ known pieces full) (young : h.lastFull = false) (o : Address) :
    o ∉ h.spaces.large.treadmill.old := by
  obtain ⟨_, opened⟩ := traced.opened
  intro bad
  have both := (traced.shared.tracked.large.old o bad).1
  rw [traced.closing.kept.steady.youngOnly, opened.set.large_space] at both
  cases plan : h.plan with
  | semispace => exact absurd young (by rw [lastFull, plan]; simp)
  | generational =>
    rw [lastFull, plan] at young
    have full := traced.scope_full plan
    rw [← traced.plan, plan, ← full] at both
    simp [LargeSpace.readied, young] at both

/-- When the closure is over, the spaces that the collection reclaims memory in are in it, and no other ones. -/
theorem engaged (traced : h₀.Traced h₁ h cs₀ cs pieces₀ known pieces full) (quiet : Quiet h₀ cs₀ pieces₀) (id : SpaceId) :
    (h.spaces.space id).region.prepared = h.spaces.engages h.lastFull h.other id := by
  obtain ⟨_, opened⟩ := traced.opened
  have kept := traced.closing.kept
  have whole : h.lastFull = h₁.lastFull := by
    obtain ⟨_, _, _, _, _, _, _, _, same⟩ := traced.laboured
    have full : h.scope.full = h₁.scope.full := by rw [same]
    rw [lastFull, lastFull, kept.plan, full]
  have other : h.other = h₁.other := by rw [Heap.other, Heap.other, traced.laboured.mutators.2]
  rw [kept.steady.region id, opened.set.engaged quiet.rested id, whole, other, Spaces.engages_congr kept.plan]

/-- Between collections again. -/
theorem quiet (traced : h₀.Traced h₁ h cs₀ cs pieces₀ known pieces full) (quiet : Quiet h₀ cs₀ pieces₀)
    (released : h.Released h' cs cs') (fewer : kept <+ pieces) (retained : ∀ p ∈ kept, h.Retains p)
    (complete : ∀ p ∈ pieces, p.home = .large → p.isObject = true → h.spaces.Reached p → p ∈ kept) : Quiet h' cs' kept := by
  obtain ⟨_, opened⟩ := traced.opened
  have spared := traced.spared quiet released fewer retained
  have freed := traced.freed quiet released fewer retained
  obtain ⟨_, _, _, same⟩ := released.heap
  have plan : h'.plan = h.plan := freed.plan
  have flipped : h'.scope.flipped = h.scope.flipped := by rw [same]
  have current : h'.current = h.current := current_congr plan flipped
  have tracked : h'.spaces.Tracked kept := by
    refine freed.tracked traced.shared.tracked spared.saved (fun p member home object on => complete p member home object ?_)
      traced.shared.old traced.old_empty (freed.rested released.frees (traced.engaged quiet))
    unfold Spaces.Reached
    rwa [home]
  have lists : ∀ o, o ∉ h'.spaces.large.treadmill.young ∧ o ∉ h'.spaces.large.treadmill.old := fun o => by
    rw [freed.large]
    refine ⟨Std.TreeSet.not_mem_emptyc, ?_⟩
    cases young : h.lastFull with
    | true => exact Std.TreeSet.not_mem_emptyc
    | false => exact traced.old_empty young o
  refine ⟨freed.held, tracked, fun m member => ?_, fun c member => ?_, fun id y space => ?_,
    freed.rested released.frees (traced.engaged quiet), lists, fun semispace p member => ?_, fun semispace x space => ?_,
    Spaces.stamping_congr plan freed.freshMark traced.closing.kept.stamping⟩
  · rw [same, Array.mem_map] at member
    obtain ⟨m₁, inside, rfl⟩ := member
    rw [traced.laboured.mutators.1, opened.mutators, Array.mem_map] at inside
    obtain ⟨m₀, inside, rfl⟩ := inside
    obtain ⟨formed, bound⟩ := quiet.mutators m₀ inside
    have bumpable : ∀ {id}, h'.spaces.Bumpable id ↔ h₀.spaces.Bumpable id := by
      intro id
      rw [Spaces.bumpable_iff, Spaces.bumpable_iff, show h'.spaces.plan = h₀.spaces.plan from plan.trans traced.plan]
    have formed' : (m₀.readied h₁.sweeps).allocators.Formed h'.spaces := by
      have carried : m₀.allocators.Formed h'.spaces := ⟨fun b on => bumpable.mpr (formed.bumps b on), formed.cells⟩
      cases h₁.sweeps <;> [exact carried; exact AllocatorSet.resetCells_formed carried]
    have bound' : (Mutator.unused h₀.current h₀.plan).BoundAlike (m₀.readied h₁.sweeps).allocators := by
      cases h₁.sweeps <;> [exact bound; exact bound.trans (AllocatorSet.resetCells_bound _)]
    refine ⟨AllocatorSet.rebindBump_formed formed' ?_, ?_⟩
    · rw [Spaces.bumpable_iff, ← current, Heap.current]
      cases known : h'.plan with
      | generational => exact .inl rfl
      | semispace => cases h'.scope.flipped <;> [exact .inl rfl; exact .inr (.inr ⟨rfl, known⟩)]
    · rw [plan, traced.plan, current]
      exact Mutator.unused_rebind bound'
  · rw [released.collectors] at member
    obtain ⟨c₁, inside, rfl⟩ := mem_map.mp member
    have aimed := (traced.shared.aimed c₁ inside).carry plan flipped
    refine ⟨?_, .inr rfl⟩
    rw [Collector.released]
    cases h.sweeps with
    | false => exact aimed
    | true =>
      exact ⟨AllocatorSet.resetCells_formed aimed.formed, aimed.destinations, aimed.bound.trans (AllocatorSet.resetCells_bound _)⟩
  · exact (freed.copying id y space).1.unclaimed
  · have moved := spared.moved p member
    rw [h.emptied_eq, ← plan, semispace] at moved
    rwa [other, flipped]
  · refine released.frees.vacant ?_
    rw [h.emptied_eq, ← plan, semispace]
    rwa [other, flipped] at space

end Heap.Traced

end

end TracingHeap

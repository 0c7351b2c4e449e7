import TracingHeap.Proofs.Cycles

/-! Copying spaces between collections. Nothing is left in their forwarding tables, the half that is not in use starts
anew, and whatever the program can reach or is about to be given lies in what the space in use has handed out. -/

namespace TracingHeap

open List

/-- No object of the space is claimed, and no copies are noted. -/
def CopySpace.Unmarked (x : CopySpace) : Prop :=
  ∀ a, x.pages.extent.holds a = true → x.forwarding.stateOf a = .ok ForwardingState.unclaimed ∧ x.forwarding.copies.load a = .ok 0

theorem CopySpace.Clean.unmarked {x : CopySpace} (clean : x.Clean) (placed : x.pages.extent.Placed) : x.Unmarked := by
  intro a inside
  obtain ⟨low, high⟩ := Extent.holds_iff.mp inside
  have state := clean.states.loadByte_total placed (k := 4) rfl (by decide) low high
  have copy := clean.copies.load_total placed (k := 4) rfl (by decide) low high
  rw [clean.unclaimed a low high] at state
  rw [clean.uncopied a low high] at copy
  exact ⟨state, copy⟩

namespace BumpAllocator

/-- The allocator has no memory left, or memory that the source has handed out. -/
def DrawsFrom (b : BumpAllocator) (f : Pages.Frontier) : Prop :=
  b.cursor.isNull = true ∨ f.extent.start ≤ b.cursor ∧ b.cursor ≤ b.limit ∧ b.limit ≤ f.cursor

theorem drawsFrom {b : BumpAllocator} {x : CopySpace} {s : Spaces} {m : Memory} {pieces : List Piece}
    {buffers : List (SpaceId × Span)} {keys : List (Nat × Address)} (held : s.Held m pieces buffers keys)
    (space : s.space b.space = .copying x) (listed : ∀ r ∈ b.buffer, r ∈ buffers) : b.DrawsFrom x.pages := by
  by_cases empty : b.cursor.isNull = true
  · exact .inl empty
  · obtain ⟨lists, stocked, -⟩ := held.estate.stocked
    have ready := (stocked.ready (b.space, ⟨b.cursor.toNat, b.limit.toNat⟩) (listed _ (by simp [buffer, empty]))).2.1
    simp only [Spaces.Houses, space] at ready
    obtain ⟨⟨low, high⟩, -, -, order⟩ := ready
    exact .inr ⟨Address.le_iff.mpr low, Address.le_iff.mpr order, Address.le_iff.mpr high⟩

end BumpAllocator

namespace Heap

/-- The space for ordinary objects is a copying one. -/
theorem current_copying (h : Heap) : ∃ y, h.spaces.space h.current = .copying y := by
  unfold current
  cases plan : h.plan with
  | generational => exact ⟨h.spaces.first, rfl⟩
  | semispace =>
    rw [Heap.plan, Spaces.plan] at plan
    cases h.scope.flipped with
    | false => exact ⟨h.spaces.first, rfl⟩
    | true =>
      cases second : h.spaces.second with
      | mature => simp [second] at plan
      | twin y => exact ⟨y, by simp [Spaces.space, second]⟩

variable {h : Heap} {cs : List Collector} {pieces objects : List Piece}

theorem other_copying (semispace : h.plan = .semispace) : ∃ x, h.spaces.space h.other = .copying x := by
  rw [plan, Spaces.plan] at semispace
  cases second : h.spaces.second with
  | mature => simp [second] at semispace
  | twin y =>
    rcases h.other_half with half | half
    · exact ⟨h.spaces.first, by rw [half]; rfl⟩
    · exact ⟨y, by rw [half]; simp [Spaces.space, second]⟩

/-- A copying space is in use, or it is the other half. -/
theorem current_or_other {id : SpaceId} {x : CopySpace} (space : h.spaces.space id = .copying x) :
    id = h.current ∨ h.plan = .semispace ∧ id = h.other := by
  rw [current, other, plan, Spaces.plan]
  cases id with
  | immortal | large => cases space
  | first => cases h.spaces.second <;> cases h.scope.flipped <;> simp
  | second =>
    cases second : h.spaces.second with
    | mature => simp [Spaces.space, second] at space
    | twin => cases h.scope.flipped <;> simp

end Heap

section

variable {h : Heap} {cs : List Collector} {pieces objects : List Piece}

theorem Quiet.clean (quiet : Quiet h cs pieces) {id : SpaceId} {x : CopySpace} (space : h.spaces.space id = .copying x) : x.Clean :=
  (quiet.tracked.copying id x space).clean (quiet.unforwarded id x space)

/-- Nothing is in the other half, so what lies in a copying space lies in the one in use. -/
theorem Quiet.home_current (quiet : Quiet h cs pieces) {p : Piece} (member : p ∈ pieces) {x : CopySpace}
    (space : h.spaces.space p.home = .copying x) : p.home = h.current :=
  (Heap.current_or_other space).resolve_right fun ⟨semispace, other⟩ => quiet.half semispace p member other

/-- The program knows every object that the roots lead to. -/
theorem Knows.of_leads (knows : Knows h pieces objects) {a : Address} (leads : h.Leads a) : ∃ o ∈ objects, o.start = a := by
  induction leads with
  | root member proper =>
    obtain ⟨o, known, same⟩ := (knows.roots _ member).resolve_left proper
    exact ⟨o, known, same.symm⟩
  | field _ inside holds proper ih =>
    obtain ⟨o, known, rfl⟩ := ih
    obtain ⟨q, known, same⟩ := (knows.fields o known _ inside).resolve_left fun null => proper (holds.symm.trans null)
    exact ⟨q, known, same.symm.trans holds⟩

/-- An object that the roots lead to and that lies in a copying space lies wholly below the cursor of the one in use. -/
theorem Quiet.below (quiet : Quiet h cs pieces) (knows : Knows h pieces objects) {a : Address} (leads : h.Leads a) {id : SpaceId}
    {x y : CopySpace} (space : h.spaces.space id = .copying x) (inside : x.pages.extent.holds a = true)
    (current : h.spaces.space h.current = .copying y) :
    id = h.current ∧ a.toNat + (h.memory.header a).size.toNat ≤ y.pages.cursor.toNat := by
  obtain ⟨o, known, rfl⟩ := knows.of_leads leads
  obtain ⟨member, -⟩ := knows.known o known
  obtain ⟨low, high⟩ := quiet.held.inside member
  have there : (h.spaces.space id).extent.holds o.start = true := by rw [space]; exact inside
  obtain rfl : id = o.home := quiet.held.estate.laid.unique there low high
  have home := quiet.home_current member space
  rw [home, current] at space
  cases space
  have issued := quiet.held.issued member
  simp only [home, Spaces.Issued, current] at issued
  have placed := (quiet.held.placed o member).high
  have size := (knows.movable o known x (by rw [home, current])).1
  exact ⟨home, by rw [size]; exact Nat.le_trans placed issued.2⟩

/-- Every bump allocator of a copying space, whether it belongs to a mutator or to a collector, serves the space in use. -/
theorem Quiet.draws (quiet : Quiet h cs pieces) {b : BumpAllocator} {x y : CopySpace}
    (owned : (∃ m ∈ h.program.mutators, b ∈ m.allocators.bumps) ∨ ∃ c ∈ cs, b ∈ c.copies.allocators.bumps)
    (space : h.spaces.space b.space = .copying x) (current : h.spaces.space h.current = .copying y) :
    b.space = h.current ∧ b.DrawsFrom y.pages := by
  have serves : b.space = h.current ∧ ∀ r ∈ b.buffer, r ∈ cs.flatMap Collector.buffers ++ h.buffers := by
    rcases owned with ⟨m, owner, member⟩ | ⟨c, owner, member⟩
    · have bound : b.space ∈ m.allocators.bumps.toList.map (·.space) := mem_map_of_mem (Array.mem_toList_iff.mpr member)
      rw [(quiet.mutators m owner).2.bumps] at bound
      refine ⟨?_, fun r part => mem_append_right _ (mem_flatMap.mpr ⟨m, Array.mem_toList_iff.mpr owner, ?_⟩)⟩
      · have cases : b.space = h.current ∨ b.space = .immortal := by
          cases plan : h.plan <;> simpa [plan, Mutator.unused, BumpAllocator.new] using bound
        refine cases.resolve_right fun immortal => ?_
        rw [immortal] at space
        cases space
      · exact mem_flatMap.mpr ⟨b, Array.mem_toList_iff.mpr member, part⟩
    · have bound : b.space ∈ c.copies.allocators.bumps.toList.map (·.space) := mem_map_of_mem (Array.mem_toList_iff.mpr member)
      rw [(quiet.collectors c owner).1.bound.bumps] at bound
      refine ⟨?_, fun r part => mem_append_left _ (mem_flatMap.mpr ⟨c, owner, ?_⟩)⟩
      · cases plan : h.plan with
        | generational => simp [plan, CopyContext.unused] at bound
        | semispace => simpa [plan, CopyContext.unused, BumpAllocator.new] using bound
      · exact mem_flatMap.mpr ⟨b, Array.mem_toList_iff.mpr member, part⟩
  obtain ⟨home, listed⟩ := serves
  exact ⟨home, BumpAllocator.drawsFrom quiet.held (home ▸ current) listed⟩

end

namespace World

variable {w : World}

/-- Between collections no object of a copying space is claimed or forwarded, and the half that is not in use is empty.
Every object in a copying space that the roots lead to lies in the space in use, below its cursor. Ordinary requests are
served from that space, and no allocator has memory of a copying space that this one has not handed out. -/
theorem Reachable.copying_spaces (reachable : w.Reachable) :
    (∀ id x, w.heap.spaces.space id = .copying x → x.Unmarked) ∧
      (w.heap.plan = .semispace → ∃ x, w.heap.spaces.space w.heap.other = .copying x ∧
        x.pages.cursor = x.pages.extent.start ∧ x.pages.ledger.reserved = 0) ∧
      ∃ y, w.heap.spaces.space w.heap.current = .copying y ∧
        (∀ a id x, w.heap.Leads a → w.heap.spaces.space id = .copying x → x.pages.extent.holds a = true →
          id = w.heap.current ∧ a.toNat + (w.heap.memory.header a).size.toNat ≤ y.pages.cursor.toNat) ∧
        (∀ m ∈ w.heap.program.mutators, ∃ k b, Mutator.selector w.heap.plan .ordinary = .bump k ∧
          m.allocators.bumps[k.toNat]? = some b ∧ b.space = w.heap.current ∧ b.DrawsFrom y.pages) ∧
        ∀ b : BumpAllocator, ((∃ m ∈ w.heap.program.mutators, b ∈ m.allocators.bumps) ∨
            ∃ c ∈ w.heap.team, b ∈ c.copies.allocators.bumps) →
          ∀ x, w.heap.spaces.space b.space = .copying x → b.space = w.heap.current ∧ b.DrawsFrom y.pages := by
  obtain ⟨pieces, objects, sound⟩ := reachable.sound
  have quiet := sound.quiet
  obtain ⟨y, current⟩ := w.heap.current_copying
  refine ⟨fun id x space => ?_, fun semispace => ?_, y, current, ?_, fun m member => ?_, ?_⟩
  · have placed := quiet.held.estate.laid.placed id
    rw [space] at placed
    exact (quiet.clean space).unmarked placed
  · obtain ⟨x, space⟩ := Heap.other_copying semispace
    have new := quiet.vacant semispace x space
    exact ⟨x, space, by rw [new]; rfl, by rw [new]; rfl⟩
  · exact fun a id x leads space inside => quiet.below sound.knows leads space inside current
  · have bound := (quiet.mutators m member).2.bumps
    have first : (m.allocators.bumps.toList.map (·.space))[0]? = some w.heap.current := by
      rw [bound]
      cases w.heap.plan <;> rfl
    rw [getElem?_map, Option.map_eq_some_iff] at first
    obtain ⟨b, first, home⟩ := first
    have here : m.allocators.bumps[0]? = some b := by rw [← Array.getElem?_toList]; exact first
    have owned : b ∈ m.allocators.bumps := Array.mem_of_getElem? here
    exact ⟨0, b, by cases w.heap.plan <;> rfl, here, quiet.draws (.inl ⟨m, member, owned⟩) (home ▸ current) current⟩
  · exact fun b owned x space => quiet.draws owned space current

/-- In the first program, the young object that the large one refers to lies below the cursor of the nursery. -/
theorem sample_copying_spaces : sample.heap.spaces.first.Unmarked ∧
    youngAt.toNat + 1024 ≤ sample.heap.spaces.first.pages.cursor.toNat ∧
    ∀ m ∈ sample.heap.program.mutators, ∃ b, m.allocators.bumps[0]? = some b ∧ b.DrawsFrom sample.heap.spaces.first.pages := by
  obtain ⟨unmarked, -, y, current, below, ordinary, -⟩ := sample_reachable.copying_spaces
  have first : sample.heap.current = .first := by decide +kernel
  have there : sample.heap.spaces.space .first = .copying sample.heap.spaces.first := by simp only [Spaces.space]
  rw [first, there] at current
  obtain rfl := Space.copying.inj current
  have leads : sample.heap.Leads youngAt :=
    .field (i := 0) (o := largeAt) (.root (by decide +kernel) (by decide)) (by decide +kernel) (by decide +kernel) (by decide)
  have size : (sample.heap.memory.header youngAt).size.toNat = 1024 := by decide +kernel
  obtain ⟨-, most⟩ := below youngAt .first _ leads there (by decide +kernel)
  rw [size] at most
  refine ⟨unmarked .first _ there, most, fun m member => ?_⟩
  obtain ⟨k, b, route, bound, -, draws⟩ := ordinary m member
  rw [Mutator.selector, AllocatorSelector.bump.injEq] at route
  subst route
  exact ⟨b, bound, draws⟩

end World

end TracingHeap

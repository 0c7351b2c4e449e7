import TracingHeap.Proofs.Preparing

/-! The outset of a closure. After the phases before it the spaces count nothing as marked that the collection
covers, apart from large objects that are old, so a closure can start with what the program knows. -/

namespace TracingHeap

open List Memory Work

/-- A heap whose spaces were prepared for a collection. -/
structure Heap.Set (h h' : Heap) (full : Bool) : Prop where
  spaces : h'.spaces = h.spaces.readied full (!h.scope.flipped)
  scope : h'.scope = h.nextScope full
  memory : h'.memory = h.memory
  roots : h'.program.roots = h.program.roots

namespace Heap.Set

variable {h h' : Heap} {full : Bool} {pieces known : List Piece} {cs : List Collector} {p o : Piece} {id : SpaceId}

theorem plan (set : h.Set h' full) : h'.plan = h.plan := by
  rw [Heap.plan, Heap.plan, set.spaces, Spaces.readied]
  unfold Spaces.plan
  cases h.spaces.second <;> rfl

theorem alike (set : h.Set h' full) (id : SpaceId) : (h.spaces.space id).Alike (h'.spaces.space id) := by
  rw [set.spaces, Spaces.readied]
  cases second : h.spaces.second with
  | mature x =>
    cases id with
    | first => exact rfl
    | second =>
      simp only [Spaces.space, second]
      cases full
      all_goals exact ⟨rfl, rfl, rfl, rfl, rfl⟩
    | immortal => cases full <;> exact rfl
    | large => exact rfl
  | twin x =>
    cases id with
    | first => exact rfl
    | second => simp only [Spaces.space, second]; exact rfl
    | immortal => exact rfl
    | large => exact rfl

/-- The space that ordinary objects were allocated in is emptied. -/
theorem evacuates (set : h.Set h' full) : h'.spaces.Evacuates id ↔ id = h.current := by
  rw [set.spaces, Spaces.readied, current, Heap.plan, Spaces.plan]
  cases second : h.spaces.second with
  | mature x => cases id <;> simp [Spaces.Evacuates, Spaces.space, CopySpace.readied]
  | twin x =>
    cases id <;> cases flipped : h.scope.flipped <;> simp [Spaces.Evacuates, Spaces.space, CopySpace.readied]

theorem flipped (set : h.Set h' full) : h'.scope.flipped = (match h.plan with
    | .generational => h.scope.flipped
    | .semispace => !h.scope.flipped) := by
  rw [set.scope, nextScope]
  cases h.plan <;> rfl

/-- Copies go elsewhere. -/
theorem still (set : h.Set h' full) : ¬ h'.spaces.Evacuates h'.destination := by
  rw [set.evacuates, destination, current, current, set.plan, set.flipped]
  cases h.plan with
  | generational => simp
  | semispace => cases h.scope.flipped <;> simp

/-- What the collection covers. -/
theorem covered (set : h.Set h' full) (here : p.home = .second → h.plan = .semispace → p.home = h.current)
    (half : p.home = .first → p.home = h.current) :
    h'.Covered p ↔ (h.plan = .generational → p.home = .second ∨ p.home = .immortal → full = true) := by
  rw [Heap.covered_iff, set.plan, set.scope, nextScope]
  cases home : p.home with
  | first => simp [set.evacuates, ← half home, home]
  | second =>
    cases plan : h.plan with
    | generational => simp
    | semispace => simp [set.evacuates, ← here home plan, home]
  | immortal => cases plan : h.plan <;> simp
  | large => simp

theorem nurseryOnly (set : h.Set h' full) : h'.nurseryOnly = (h.plan == .generational && !full) := by
  rw [Heap.nurseryOnly, set.plan, set.scope, nextScope]
  cases h.plan <;> rfl

/-- Nothing is claimed or forwarded. -/
theorem unforwarded (set : h.Set h' full) (quiet : Quiet h cs pieces) {x : CopySpace}
    (space : h'.spaces.space id = .copying x) {a : Address} (low : x.pages.extent.span.lo ≤ a.toNat)
    (high : a.toNat < x.pages.extent.span.hi) : x.forwarding.states.entryByte a = 0 := by
  have earlier : ∃ y, h.spaces.space id = .copying y ∧ x.pages = y.pages ∧ x.forwarding = y.forwarding := by
    rw [set.spaces, Spaces.readied] at space
    cases second : h.spaces.second with
    | mature y =>
      cases id with
      | first =>
        simp only [second, Spaces.space, Space.copying.injEq] at space
        exact ⟨_, rfl, space ▸ rfl, space ▸ rfl⟩
      | second => simp only [second, Spaces.space, reduceCtorEq] at space
      | immortal => simp only [second, Spaces.space, reduceCtorEq] at space
      | large => simp only [second, Spaces.space, reduceCtorEq] at space
    | twin y =>
      cases id with
      | first =>
        simp only [second, Spaces.space, Space.copying.injEq] at space
        exact ⟨_, rfl, space ▸ rfl, space ▸ rfl⟩
      | second =>
        simp only [second, Spaces.space, Space.copying.injEq] at space
        exact ⟨y, by rw [Spaces.space, second], space ▸ rfl, space ▸ rfl⟩
      | immortal => simp only [second, Spaces.space, reduceCtorEq] at space
      | large => simp only [second, Spaces.space, reduceCtorEq] at space
  obtain ⟨y, space', pages, forwarding⟩ := earlier
  rw [pages] at low high
  rw [forwarding]
  exact quiet.unforwarded id y space' a low high

theorem inside (set : h.Set h' full) (quiet : Quiet h cs pieces) (member : p ∈ pieces) :
    (h'.spaces.space p.home).extent.span.lo ≤ p.start.toNat ∧
      p.start.toNat < (h'.spaces.space p.home).extent.span.hi := by
  rw [Spaces.Alike.extent (set.alike p.home)]
  exact quiet.held.inside member

theorem unmoved (set : h.Set h' full) (quiet : Quiet h cs pieces) (member : p ∈ pieces) {x : CopySpace}
    (space : h'.spaces.space p.home = .copying x) : x.forwarding.states.entryByte p.start = 0 := by
  obtain ⟨low, high⟩ := set.inside quiet member
  rw [space] at low high
  exact set.unforwarded quiet space low high

theorem unreached_copying (set : h.Set h' full) (quiet : Quiet h cs pieces) (member : p ∈ pieces)
    (moves : h'.spaces.Evacuates p.home) : ¬ h'.spaces.Reached p := by
  unfold Spaces.Evacuates at moves
  unfold Spaces.Reached
  cases space : h'.spaces.space p.home with
  | copying x =>
    simp only [set.unmoved quiet member space]
    decide
  | markSweep x => rw [space] at moves; exact moves.elim
  | immortal x => rw [space] at moves; exact moves.elim
  | large x => rw [space] at moves; exact moves.elim

theorem published (set : h.Set h' full) (quiet : Quiet h cs pieces) (member : p ∈ pieces) : ¬ h'.spaces.Claimed p := by
  unfold Spaces.Claimed
  cases space : h'.spaces.space p.home with
  | copying x =>
    simp only [set.unmoved quiet member space]
    decide
  | markSweep x => exact id
  | immortal x => exact id
  | large x => exact id

/-- Ordinary objects are in the space that is in use. -/
theorem home_current (quiet : Quiet h cs pieces) (member : p ∈ pieces) :
    (p.home = .first → p.home = h.current) ∧ (p.home = .second → h.plan = .semispace → p.home = h.current) := by
  unfold current
  cases plan : h.plan with
  | generational => exact ⟨id, fun _ bad => by cases bad⟩
  | semispace =>
    have half := quiet.half plan p member
    unfold other at half
    cases flipped : h.scope.flipped with
    | false =>
      rw [flipped] at half
      exact ⟨id, fun home _ => absurd home half⟩
    | true =>
      rw [flipped] at half
      exact ⟨fun home => absurd home half, fun home _ => home⟩

theorem second_mature (set : h.Set h' full) {x : MarkSweepSpace} (second : h'.spaces.second = .mature x) :
    h.plan = .generational ∧ ∃ y, h.spaces.second = .mature y ∧ x = if full then y.readied else y := by
  rw [set.spaces, Spaces.readied] at second
  rw [Heap.plan, Spaces.plan]
  cases second' : h.spaces.second with
  | mature y =>
    simp only [second', SecondSpace.mature.injEq] at second
    exact ⟨rfl, y, rfl, second.symm⟩
  | twin y => simp only [second', reduceCtorEq] at second

theorem unreached_mature (set : h.Set h' full) (quiet : Quiet h cs pieces) (member : p ∈ pieces) {x : MarkSweepSpace}
    (space : h'.spaces.space p.home = .markSweep x) (whole : full = true) : ¬ h'.spaces.Reached p := by
  obtain ⟨home, second⟩ := Spaces.second_of_markSweep space
  obtain ⟨-, y, second', same⟩ := set.second_mature second
  rw [if_pos whole] at same
  unfold Spaces.Reached
  rw [space]
  rintro ⟨cell, start, marked⟩
  have within := quiet.held.within member
  have placed := quiet.held.placed p member
  have extent : (h.spaces.space p.home).extent = y.pages.extent := by
    rw [home, Spaces.space, second']
    rfl
  rw [extent] at within
  have inner := within.1
  have outer := within.2
  have room := placed.room
  have near := placed.low
  have value := quiet.mature y second' cell (by omega) (by omega)
  have current := (quiet.tracked.mature y second').current
  rw [same, MarkSweepSpace.readied] at marked
  simp only at marked
  rw [marked] at value
  rcases current with current | current
  all_goals
    rw [current] at value
    revert value
    decide

theorem immortal_space (set : h.Set h' full) :
    h'.spaces.immortal = if h.plan = .generational ∧ full = false then h.spaces.immortal else h.spaces.immortal.readied := by
  rw [set.spaces, Spaces.readied, Heap.plan, Spaces.plan]
  cases h.spaces.second with
  | mature x => cases full <;> simp
  | twin x => simp

theorem large_space (set : h.Set h' full) :
    h'.spaces.large = h.spaces.large.readied (decide (h.plan = .generational → full = true)) := by
  rw [set.spaces, Spaces.readied, Heap.plan, Spaces.plan]
  cases h.spaces.second with
  | mature x => simp
  | twin x => simp

/-- A collection that covers everything finds no mark but those of immortal objects. -/
theorem unreached_ordinary (set : h.Set h' full) (quiet : Quiet h cs pieces) (member : p ∈ pieces) (ordinary : p.home ≠ .immortal)
    (whole : h.plan = .generational → full = true) : ¬ h'.spaces.Reached p := by
  obtain ⟨first, second⟩ := home_current quiet member
  cases space : h'.spaces.space p.home with
  | copying x =>
    refine set.unreached_copying quiet member ?_
    rw [set.evacuates]
    cases home : p.home with
    | first => rw [← first home, home]
    | second =>
      refine home ▸ second home ?_
      rw [← set.plan, Heap.plan, Spaces.plan]
      rw [home, Spaces.space] at space
      cases second : h'.spaces.second with
      | mature y => rw [second] at space; cases space
      | twin y => rfl
    | immortal => exact absurd home ordinary
    | large => rw [home] at space; cases space
  | markSweep x =>
    obtain ⟨-, mature⟩ := Spaces.second_of_markSweep space
    exact set.unreached_mature quiet member space (whole (set.second_mature mature).1)
  | immortal x => exact absurd (Spaces.home_of_immortal space) ordinary
  | large x =>
    obtain ⟨home, rfl⟩ := Spaces.home_of_large space
    unfold Spaces.Reached
    rw [home, Spaces.space]
    simp only [set.large_space, decide_eq_true whole, LargeSpace.readied, Treadmill.turn, if_true]
    exact Std.TreeSet.not_mem_emptyc

/-- A collection that covers everything finds nothing marked that the program knows. -/
theorem unreached (set : h.Set h' full) (quiet : Quiet h cs pieces) (knows : Knows h pieces known) (member : o ∈ known)
    (whole : h.plan = .generational → full = true) : ¬ h'.spaces.Reached o := by
  by_cases home : o.home = .immortal
  · have marks := knows.immortal o member home
    unfold Spaces.Reached
    rw [home, Spaces.space]
    simp only [set.immortal_space]
    rw [if_neg (fun bad => by rw [whole bad.1] at bad; cases bad.2)]
    simp only [ImmortalSpace.readied, marks]
    rcases quiet.tracked.immortal.current with current | current
    all_goals
      rw [current]
      decide
  · exact set.unreached_ordinary quiet (knows.known o member).1 home whole

end Heap.Set

end TracingHeap

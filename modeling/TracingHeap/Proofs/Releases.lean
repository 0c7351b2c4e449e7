import TracingHeap.Proofs.Sweeps

/-! The release of a collection. What was reached, and what the collection did not look for, stays where it is and as it
is; every other piece is given up. The heap is between collections again afterwards. -/

namespace TracingHeap

open List Memory Work

/-! ### The steps of a release -/

/-- A mutator after a collection: the memory it allocated ordinary objects in is gone. -/
def Mutator.released (m : Mutator) (current : SpaceId) : Mutator :=
  { m with allocators := m.allocators.rebindBump 0 current }

namespace Heap

variable {h h' : Heap} {u : Unit}

/-- What the mutators do after a collection. -/
theorem mutatorsRelease_ok (ok : mutatorPhase .release h = .ok u h') :
    h' = { h with program := { h.program with mutators := h.program.mutators.map (·.released h.current) } } := by
  let holds := fun k (h₁ : Heap) => ∃ ms, h₁ = { h with program := { h.program with mutators := ms } } ∧
    ms.size = h.program.mutators.size ∧
    ∀ j, (small : j < ms.size) → (small' : j < h.program.mutators.size) →
      ms[j] = if j < k then h.program.mutators[j].released h.current else h.program.mutators[j]
  have start : holds 0 h := ⟨_, rfl, rfl, fun j small small' => (if_neg (Nat.not_lt_zero j)).symm⟩
  have next : ∀ k < h.program.mutators.size, ∀ h₁ h₂ b, holds k h₁ → phaseOfMutator .release k h₁ = .ok b h₂ →
      holds (k + 1) h₂ := by
    rintro k small h₁ h₂ b ⟨ms, rfl, size, each⟩ took
    have inside : k < ms.size := size ▸ small
    simp only [phaseOfMutator, releaseMutator, Step.get_bind] at took
    obtain ⟨m, ran, rfl⟩ := onMutator_ok inside took
    obtain rfl := Step.modify_ok.mp ran
    have mine : ms[k] = h.program.mutators[k] := by rw [each k inside small, if_neg (Nat.lt_irrefl k)]
    refine ⟨_, rfl, by rw [Array.size_setIfInBounds, size], fun j small' small'' => ?_⟩
    rw [Array.getElem_setIfInBounds (by rw [size]; exact small'')]
    by_cases here : k = j
    · subst here
      rw [if_pos rfl, if_pos (Nat.lt_succ_self k), ← mine]
      rfl
    · rw [if_neg here, each j (by rw [size]; exact small'') small'']
      by_cases before : j < k
      · rw [if_pos before, if_pos (by omega)]
      · rw [if_neg before, if_neg (by omega)]
  rw [mutatorPhase, Step.get_bind] at ok
  obtain ⟨ms, rfl, size, each⟩ := @Step.forM_range_ok _ _ holds _ _ _ _ start next ok
  have same : ms = h.program.mutators.map (·.released h.current) := by
    refine Array.ext (size.trans (Array.size_map).symm) fun j small _ => ?_
    rw [each j small (size ▸ small), if_pos (size ▸ small), Array.getElem_map]
  rw [same]

end Heap

/-- What the release does to the spaces and to memory. -/
inductive Spaces.Frees (s : Spaces) (m : Memory) (full : Bool) (other : SpaceId) : Spaces → Memory → Prop where
  | nursery {x y : MarkSweepSpace} {first : CopySpace} {large : LargeSpace} {m₁ m₂ m₃ : Memory} (second : s.second = .mature x)
    (emptied : CopySpace.release (s.first, m) = .ok () (first, m₁))
    (cleaned : LargeSpace.release full (s.large, m₁) = .ok () (large, m₂))
    (swept : full = true ∧ MarkSweepSpace.release (x, m₂) = .ok () (y, m₃) ∨ full = false ∧ y = x ∧ m₃ = m₂) :
    Frees s m full other
      ⟨first, .mature y, if full then { s.immortal with region := s.immortal.region.left } else s.immortal, large⟩ m₃
  | half {x t : CopySpace} {y : CopySpace} {large : LargeSpace} {m₁ m₂ : Memory} (second : s.second = .twin t)
    (cleaned : LargeSpace.release true (s.large, m) = .ok () (large, m₁))
    (space : s.space other = .copying x) (emptied : CopySpace.release (x, m₁) = .ok () (y, m₂)) :
    Frees s m full other
      (Spaces.setCopying { s with large, immortal := { s.immortal with region := s.immortal.region.left } } other y) m₂

namespace Heap

variable {h h' : Heap} {u : Unit}

theorem releaseBacklog_ok {σ α : Type} {b b' : Backlog σ α} (ok : Backlog.release b = .ok u b') : b' = b := by
  simp only [Backlog.release, Backlog.objectsPart, Packets.isEmpty, Packets.enter, Step.bind_ok, Step.on_ok, Step.get_bind,
    Step.ensure_ok, Step.pure_ok] at ok
  obtain ⟨_, _, ⟨_, ⟨_, _, ⟨-, rfl⟩, -, rfl⟩, rfl⟩, -, same⟩ := ok
  exact same.symm

theorem releaseCommon_ok {full : Bool} (ok : releaseCommon full h = .ok u h') :
    ∃ large m, LargeSpace.release full (h.spaces.large, h.memory) = .ok () (large, m) ∧
      h' = { h with
        memory := m
        spaces := { h.spaces with
          large
          immortal := if full then { h.spaces.immortal with region := h.spaces.immortal.region.left } else h.spaces.immortal } } := by
  simp only [releaseCommon, Step.bind_ok, onLarge_ok] at ok
  obtain ⟨_, _, ⟨large, m, cleaned, rfl⟩, ok⟩ := ok
  refine ⟨large, m, cleaned, ?_⟩
  cases full with
  | false =>
    obtain ⟨-, rfl⟩ := Step.pure_ok.mp ok
    rfl
  | true =>
    simp only [if_true, onImmortal_ok] at ok
    obtain ⟨immortal, m₁, left, rfl⟩ := ok
    simp only [ImmortalSpace.release, Step.on_ok, Focus.fst, ImmortalSpace.regionPart] at left
    obtain ⟨_, ⟨_, left, rfl⟩, same⟩ := left
    cases same
    rw [Region.leave_ok left]
    rfl

/-- How a collection ends. -/
theorem release_ok (ok : release h = .ok u h') : ∃ spaces memory nextFull,
    h.spaces.Frees h.memory h.lastFull h.other spaces memory ∧
      h' = { h with spaces, memory, scope := { h.scope with nextFull } } ∧
      (h.plan = .generational → ∃ available nursery, h'.pagesAvailable = .ok available ∧
        h'.settings.maxNurseryPages = .ok nursery ∧ nextFull = decide (available < nursery)) := by
  have last : ∀ {h₁ h₂ : Heap} {b : Unit}, Step.on backlogPart Backlog.release h₁ = .ok b h₂ → h₂ = h₁ := by
    intro h₁ h₂ b ok
    simp only [Step.on_ok, backlogPart] at ok
    obtain ⟨b, released, rfl⟩ := ok
    rw [releaseBacklog_ok released]
  rw [release, Step.get_bind] at ok
  cases second : h.spaces.second with
  | mature x =>
    have plan : h.plan = .generational := by rw [Heap.plan, Spaces.plan, second]
    simp only [plan, Step.get_bind, Step.bind_ok] at ok
    obtain ⟨_, _, emptied, _, _, common, ok⟩ := ok
    obtain ⟨y, first, m₁, space, emptied, rfl⟩ := onCopying_ok.mp emptied
    obtain ⟨large, m₂, cleaned, rfl⟩ := releaseCommon_ok common
    injection space with space
    subst space
    have whole : h.lastFull = h.scope.full := by rw [lastFull, plan]
    rw [whole]
    cases full : h.scope.full with
    | false =>
      simp only [full, Bool.false_eq_true, if_false, Step.bind_ok, Step.ask_ok, Step.modify_ok] at ok cleaned
      obtain ⟨_, _, backlog, available, _, ⟨counted, rfl⟩, nursery, _, ⟨limit, rfl⟩, rfl⟩ := ok
      rw [last backlog] at counted limit ⊢
      have freed : h.spaces.Frees h.memory false h.other ⟨first, h.spaces.second, h.spaces.immortal, large⟩ m₂ := by
        rw [second]
        exact .nursery second emptied cleaned (.inr ⟨rfl, rfl, rfl⟩)
      exact ⟨_, _, _, freed, rfl, fun _ => ⟨available, nursery, counted, limit, rfl⟩⟩
    | true =>
      simp only [full, if_true, Step.bind_ok, onMature_ok, Step.ask_ok, Step.modify_ok] at ok cleaned
      obtain ⟨_, _, ⟨x', y, m₃, second', swept, rfl⟩, _, _, backlog, available, _, ⟨counted, rfl⟩, nursery, _, ⟨limit, rfl⟩, rfl⟩ := ok
      rw [last backlog] at counted limit ⊢
      obtain rfl : x = x' := SecondSpace.mature.inj (second.symm.trans second')
      exact ⟨_, _, _, .nursery second emptied cleaned (.inl ⟨rfl, swept⟩), rfl, fun _ => ⟨available, nursery, counted, limit, rfl⟩⟩
  | twin x =>
    have plan : h.plan = .semispace := by rw [Heap.plan, Spaces.plan, second]
    simp only [plan, Step.get_bind, Step.bind_ok] at ok
    obtain ⟨_, _, common, _, _, took, ok⟩ := ok
    obtain ⟨large, m₁, cleaned, rfl⟩ := releaseCommon_ok common
    obtain ⟨t, y, m₂, space, emptied, rfl⟩ := onCopying_ok.mp took
    rw [last ok]
    have space' : h.spaces.space h.other = .copying t := by
      rw [← space]
      change h.spaces.space h.other = Spaces.space _ h.other
      unfold Heap.other
      split <;> rfl
    exact ⟨_, _, h.scope.nextFull, .half second cleaned space' emptied, rfl, fun generational => by cases plan.symm.trans generational⟩

end Heap

/-! ### What is given up and what stays -/

namespace Spaces

variable {s s' : Spaces} {m m' : Memory} {pieces kept : List Piece} {buffers : List (SpaceId × Span)} {keys : List (Nat × Address)}
  {full : Bool} {id other : SpaceId}

/-- Large objects do not share pages. -/
theorem Held.page_ne {p q : Piece} (held : s.Held m pieces buffers keys) (tracked : s.large.Tracked pieces) (member : p ∈ pieces)
    (member' : q ∈ pieces) (home : p.home = .large) (home' : q.home = .large) (differ : p.start ≠ q.start) :
    s.large.page p.start ≠ s.large.page q.start := by
  have index := held.large_index_ne tracked.table member member' home home' differ
  have above := (held.inside member).1
  have above' := (held.inside member').1
  rw [home] at above
  rw [home'] at above'
  simp only [space, Space.extent, Extent.span, Span.ofBytes] at above above'
  rw [tracked.table.index_eq (k := 12) rfl (by decide) above, tracked.table.index_eq (k := 12) rfl (by decide) above'] at index
  exact index

/-- A large object that was not reached is not on the page of one that stays. -/
theorem Held.dead_apart {o : Address} (held : s.Held m pieces buffers keys) (tracked : s.large.Tracked pieces)
    (fewer : ∀ p ∈ kept, p ∈ pieces)
    (saved : ∀ p ∈ kept, p.home = .large → p.isObject = true → p.start ∈ s.large.treadmill.survivors)
    (dead : o ∈ s.large.treadmill.young ∨ o ∈ s.large.treadmill.old) :
    ∀ p ∈ kept, p.home = .large → s.large.page p.start ≠ s.large.page o := by
  intro p member home
  obtain ⟨q, inside, home', object, rfl⟩ := tracked.listed o (.inr (.inr dead))
  refine held.page_ne tracked (fewer p member) inside home home' fun same => ?_
  obtain rfl := held.start_inj (fewer p member) inside same
  have mark := tracked.survivors p.start (saved p member home object)
  rcases dead with young | old
  · rw [tracked.young p.start young] at mark
    rcases tracked.current with current | current <;> rw [current] at mark <;> split at mark <;> exact absurd mark (by decide)
  · rw [(tracked.old p.start old).2] at mark
    rcases tracked.current with current | current <;> rw [current] at mark <;> exact absurd mark (by decide)

/-- What is left of the spaces after a release. -/
structure Freed (s s' : Spaces) (m m' : Memory) (full : Bool) (kept : List Piece) (buffers : List (SpaceId × Span))
    (keys : List (Nat × Address)) : Prop where
  held : s'.Held m' kept buffers keys
  agree : ∀ p ∈ kept, AgreeOn m m' p.span
  plan : s'.plan = s.plan
  copying : ∀ id y, s'.space id = .copying y → y.Clean ∧ ∃ x, s.space id = .copying x ∧ y.pages.extent = x.pages.extent
  mature : ∀ y, s'.second = .mature y → y.Tracked ∧ ∃ x, s.second = .mature x ∧ y.pages.extent = x.pages.extent ∧
    y.region = if full = true then x.region.left else x.region
  immortal : s'.immortal = { s.immortal with region := s'.immortal.region } ∧ s'.immortal.region.logged = s.immortal.region.logged
  large : s'.large = { s.large with
    region := s.large.region.left
    pages := s'.large.pages
    marks := s'.large.marks
    treadmill := { s.large.treadmill with
      young := ∅
      old := if full = true then ∅ else s.large.treadmill.old } }
  extent : s'.large.pages.extent = s.large.pages.extent
  beside : s'.large.marks.Beside s.large.pages.extent .byte 12
  marks : ∀ p ∈ kept, p.home = .large → s'.large.marks.entryByte p.start = s.large.marks.entryByte p.start
  level : s'.excess = s.excess
  runs : ∀ run ∈ s'.large.pages.map.live, run ∈ s.large.pages.map.live ∧
    ∀ o, o ∈ s.large.treadmill.young ∨ full = true ∧ o ∈ s.large.treadmill.old → run.first ≠ s.large.page o
  spared : full = true → ∀ x, s.second = .mature x → ∃ y, s'.second = .mature y ∧
    ∀ b ∈ y.blocks, b ∈ x.blocks ∧ x.Spares b
  settled : ∀ id, ¬ s'.Evacuates id
  marked : full = true → ∀ p ∈ kept, p.home = .second → s.plan = .generational → s'.Reached p
  noted : full = true → ∀ x y, s.second = .mature x → s'.second = .mature y → ∀ a : Address,
    x.pages.extent.start.toNat ≤ a.toNat → y.marks.entryByte a = y.current → x.marks.entryByte a = x.current

/-- The space that a release empties. -/
def emptied (s : Spaces) (other : SpaceId) : SpaceId :=
  match s.second with
  | .mature _ => .first
  | .twin _ => other

/-- Has the collection entered the space? Those that it reclaims memory in have. -/
def engages (s : Spaces) (full : Bool) (other : SpaceId) : SpaceId → Bool
  | .first => s.emptied other == .first
  | .second =>
    match s.second with
    | .mature _ => full
    | .twin _ => other == .second
  | .immortal => full
  | .large => true

theorem engages_congr (plan : s'.plan = s.plan) : s'.engages full other id = s.engages full other id := by
  unfold Spaces.plan at plan
  cases id with
  | first | second =>
    unfold engages emptied
    cases second : s.second <;> cases second' : s'.second <;> rw [second, second'] at plan <;> first | rfl | cases plan
  | immortal | large => rfl

/-- A copying space does not notice what happens to the spaces whose objects stay. -/
theorem space_copying {x : CopySpace} {immortal : ImmortalSpace} {large : LargeSpace} (space : s.space id = .copying x) :
    Spaces.space { s with immortal, large } id = .copying x := by
  cases id with
  | first | second => exact space
  | immortal | large => cases space

/-- The space that was emptied starts anew. -/
theorem Frees.vacant (frees : s.Frees m full other s' m') {y : CopySpace} (space : s'.space (s.emptied other) = .copying y) :
    y.pages = .new y.pages.extent := by
  have renewed : ∀ {x z : CopySpace} {m m' : Memory}, CopySpace.release (x, m) = .ok () (z, m') →
      z.pages = .new z.pages.extent := fun released => by
    rw [(CopySpace.release_renews released).2]
    rfl
  cases frees with
  | nursery second emptied =>
    rw [Spaces.emptied, second] at space
    cases space
    exact renewed emptied
  | half second _ before emptied =>
    have here : s.emptied other = other := by rw [Spaces.emptied, second]
    rw [here, space_setCopying (space_copying before), if_pos rfl] at space
    cases space
    exact renewed emptied

/-- Every space that entered the collection has left it. -/
theorem Freed.rested {kept : List Piece} {buffers : List (SpaceId × Span)} {keys : List (Nat × Address)}
    (freed : s.Freed s' m m' full kept buffers keys) (frees : s.Frees m full other s' m')
    (engaged : ∀ id, (s.space id).region.prepared = s.engages full other id) (id : SpaceId) :
    (s'.space id).region.prepared = false := by
  have large : s'.large.region.prepared = false := by
    rw [freed.large]
    rfl
  have engaged := engaged id
  cases frees with
  | nursery second emptied =>
    cases id with
    | first => exact congrArg Region.prepared (CopySpace.release_renews emptied).1
    | second =>
      obtain ⟨-, x, before, -, region⟩ := freed.mature _ rfl
      simp only [space, before, engages, Space.region] at engaged ⊢
      rw [region]
      cases full with
      | false => exact engaged
      | true => rfl
    | immortal =>
      cases full with
      | false => exact engaged
      | true => rfl
    | large => exact large
  | @half x t y _ _ _ second _ before emptied =>
    rw [space_setCopying (space_copying before)]
    split
    · exact congrArg Region.prepared (CopySpace.release_renews emptied).1
    · rename_i away
      cases id with
      | first =>
        rw [engages, Spaces.emptied, second] at engaged
        exact engaged.trans (beq_false_of_ne (Ne.symm away))
      | second =>
        rw [engages, second] at engaged
        exact engaged.trans (beq_false_of_ne (Ne.symm away))
      | immortal => rfl
      | large =>
        cases other with
        | first | second => exact large
        | immortal | large => cases before

/-- What a release may give up. -/
structure Spared (s : Spaces) (m : Memory) (full : Bool) (id : SpaceId) (pieces kept : List Piece)
    (buffers : List (SpaceId × Span)) (keys : List (Nat × Address)) : Prop where
  held : s.Held m pieces buffers keys
  tracked : s.Tracked pieces
  fewer : kept <+ pieces
  moved : ∀ p ∈ kept, p.home ≠ id
  unused : ∀ b ∈ buffers, b.1 ≠ id
  still : ∀ id', id' ≠ id → ¬ s.Evacuates id'
  saved : ∀ p ∈ kept, p.home = .large → p.isObject = true → p.start ∈ s.large.treadmill.survivors
  marked : full = true → ∀ x, s.second = .mature x → ∀ p ∈ kept, p.home = .second → s.Reached p
  dropped : full = true → s.plan = .generational → ∀ key ∈ keys, key.2 = .null
  whole : s.plan = .semispace → full = true

theorem Held.immortal_alike {region : Region} (held : s.Held m kept buffers keys) :
    Held { s with immortal := { s.immortal with region } } m kept buffers keys :=
  held.alike fun id => by
    cases id with
    | first | immortal | large => exact rfl
    | second => cases second : s.second <;> simp [space, second, Space.Alike]

/-- Objects of the space lie below its cursor. -/
theorem Held.below {x : CopySpace} (held : s.Held m pieces buffers keys) (space : s.space id = .copying x) {p : Piece}
    (member : p ∈ pieces) (home : p.home = id) :
    x.pages.extent.start.toNat ≤ p.start.toNat ∧ p.start.toNat < x.pages.cursor.toNat := by
  have issued := held.issued member
  rw [home] at issued
  simp only [Issued, space, Pages.Frontier.Issued] at issued
  have placed := held.placed p member
  have low := placed.low
  have room := placed.room
  omega

theorem Cleaned.large {y : LargeSpace} (clean : s.Cleaned y m m' full kept buffers keys) : y = { s.large with
    region := s.large.region.left
    pages := y.pages
    marks := y.marks
    treadmill := { s.large.treadmill with
      young := ∅
      old := if full = true then ∅ else s.large.treadmill.old } } := by
  have same := clean.thinned.same
  have current := congrArg LargeSpace.current same
  have youngOnly := congrArg LargeSpace.youngOnly same
  simp only at current youngOnly
  rw [← clean.region, ← clean.treadmill]
  change y = ⟨y.region, y.pages, y.marks, s.large.current, s.large.youngOnly, y.treadmill⟩
  rw [← current, ← youngOnly]

/-- Nothing is noted in a copying space that is not being emptied. -/
theorem Spared.clean {x : CopySpace} (spared : s.Spared m full id pieces kept buffers keys) {id' : SpaceId} (other : id' ≠ id)
    (space : s.space id' = .copying x) : x.Clean := by
  have tracked := spared.tracked.copying id' x space
  refine tracked.clean fun a low high => (tracked.entries a low high).resolve_right fun ⟨evacuating, _⟩ => spared.still id' other ?_
  rw [Evacuates, space]
  exact evacuating

variable {other : SpaceId}

theorem Spared.frees (spared : s.Spared m full (s.emptied other) pieces kept buffers keys)
    (frees : s.Frees m full other s' m') : s.Freed s' m m' full kept buffers keys := by
  have base := spared.held.of_sublist spared.fewer
  have apart : ∀ o, o ∈ s.large.treadmill.young ∨ full = true ∧ o ∈ s.large.treadmill.old →
      ∀ p ∈ kept, p.home = .large → s.large.page p.start ≠ s.large.page o := fun o dead =>
    spared.held.dead_apart spared.tracked.large (fun p member => spared.fewer.subset member) spared.saved
      (dead.imp_right (·.2))
  cases frees with
  | @nursery x y first large m₁ m₂ _ second emptied cleaned swept =>
    have here : s.emptied other = .first := by rw [Spaces.emptied, second]
    have gone := (spared.tracked.copying .first s.first rfl).release_ok (spared.held.estate.laid.placed .first)
      (spared.held.estate.supplied .first) (fun p member home => spared.held.below rfl member home) emptied
    obtain ⟨held₁, agree₁⟩ := base.emptied rfl gone (here ▸ spared.moved) (here ▸ spared.unused)
    have clean := held₁.large_released spared.tracked.large.table apart cleaned
    have held₂ : Held { s with first, large } m₂ kept buffers keys := clean.thinned.held.alike (large_alike rfl)
    have held₃ : Held ⟨first, s.second, if full = true then { s.immortal with region := s.immortal.region.left } else s.immortal,
        large⟩ m₂ kept buffers keys := by
      cases full with
      | false => exact held₂
      | true => exact held₂.immortal_alike
    have runs : ∀ run ∈ large.pages.map.live, run ∈ s.large.pages.map.live ∧
        ∀ o, o ∈ s.large.treadmill.young ∨ full = true ∧ o ∈ s.large.treadmill.old → run.first ≠ s.large.page o :=
      fun run live => ⟨clean.thinned.fewer run live, fun o dead => clean.gone o dead run live⟩
    have level : large.pages.excess = s.large.pages.excess := clean.thinned.level
    have same : ∀ p ∈ kept, AgreeOn m m₂ p.span := fun p member => (agree₁ p member).trans (clean.thinned.agree p member)
    have plan : s.plan = .generational := by rw [Spaces.plan, second]
    have copying : ∀ id z, Spaces.space ⟨first, .mature y, if full = true then { s.immortal with region := s.immortal.region.left }
        else s.immortal, large⟩ id = .copying z → z.Clean ∧ ∃ x, s.space id = .copying x ∧ z.pages.extent = x.pages.extent := by
      intro id z space
      cases id with
      | first =>
        cases space
        exact ⟨gone.clean, s.first, rfl, gone.extent⟩
      | second => cases space
      | immortal => cases space
      | large => cases space
    have settled : ∀ id, ¬ Spaces.Evacuates ⟨first, .mature y, if full = true then { s.immortal with region := s.immortal.region.left }
        else s.immortal, large⟩ id := by
      intro id moves
      cases id with
      | first => exact Bool.false_ne_true (gone.settled.symm.trans moves)
      | second | immortal | large => exact moves
    rcases swept with ⟨rfl, swept⟩ | ⟨rfl, rfl, rfl⟩
    · have done := Held.swept (s := ⟨first, s.second, { s.immortal with region := s.immortal.region.left }, large⟩) held₃
        (spared.dropped rfl plan) second (spared.tracked.mature x second) (fun p member home => by
          have reached := spared.marked rfl x second p member home
          simp only [Reached, home, space] at reached ⊢
          exact reached) swept
      refine ⟨done.held, fun p member => (same p member).trans (done.agree p member), plan.symm, copying, fun z found => by
        cases found
        exact ⟨done.tracked, x, second, done.extent, done.region⟩, ⟨rfl, rfl⟩, clean.large, clean.thinned.extent,
        clean.thinned.beside, clean.thinned.marks, by simp only [excess, second, level, done.level], runs, fun _ z found => by
        cases second.symm.trans found
        exact ⟨y, rfl, done.spared⟩, settled, fun _ p member home _ => ?_, fun _ z z' found found' => ?_⟩
      · obtain ⟨cell, -, start⟩ := done.held.cellOf member home rfl
        simp only [Reached, home, space]
        exact ⟨cell, start, done.marked p member home cell start⟩
      · cases second.symm.trans found
        cases found'
        exact done.noted
    · rw [second] at held₃
      exact ⟨held₃, same, plan.symm, copying, fun z found => by
        cases found
        exact ⟨spared.tracked.mature _ second, _, second, rfl, rfl⟩, ⟨rfl, rfl⟩, clean.large, clean.thinned.extent,
        clean.thinned.beside, clean.thinned.marks, by simp only [excess, second, level], runs, fun whole => absurd whole Bool.false_ne_true,
        settled, fun whole => absurd whole Bool.false_ne_true, fun whole => absurd whole Bool.false_ne_true⟩
  | @half x t y large m₁ _ second cleaned space emptied =>
    have here : s.emptied other = other := by rw [Spaces.emptied, second]
    obtain rfl : full = true := spared.whole (by rw [Spaces.plan, second])
    have clean := base.large_released spared.tracked.large.table apart cleaned
    have held₁ : Held { s with large, immortal := { s.immortal with region := s.immortal.region.left } } m₁ kept buffers keys :=
      Held.immortal_alike (s := { s with large }) (clean.thinned.held.alike (large_alike rfl))
    have same : ∀ id z, Spaces.space { s with large, immortal := { s.immortal with region := s.immortal.region.left } } id =
        .copying z ↔ s.space id = .copying z := by
      intro id z
      cases id with
      | first | second => exact Iff.rfl
      | immortal | large => exact ⟨(fun bad => by cases bad), fun bad => by cases bad⟩
    have space₁ : Spaces.space { s with large, immortal := { s.immortal with region := s.immortal.region.left } } other =
        .copying x := space_copying space
    have placed := spared.held.estate.laid.placed other
    have sound := held₁.estate.supplied other
    rw [space₁] at sound
    rw [space] at placed
    have gone := (spared.tracked.copying other x space).release_ok placed sound
      (fun p member home => spared.held.below space member home) emptied
    obtain ⟨held₂, agree₂⟩ := held₁.emptied space₁ gone (here ▸ spared.moved) (here ▸ spared.unused)
    have parts : (Spaces.setCopying { s with large, immortal := { s.immortal with region := s.immortal.region.left } } other y).immortal =
        { s.immortal with region := s.immortal.region.left } ∧
        (Spaces.setCopying { s with large, immortal := { s.immortal with region := s.immortal.region.left } } other y).large = large := by
      cases other <;> exact ⟨rfl, rfl⟩
    refine ⟨held₂, fun p member => (clean.thinned.agree p member).trans (agree₂ p member), ?_, fun id z found => ?_,
      fun z found => ?_, ?_, ?_, ?_, ?_, ?_, ?_, ?_, fun _ z found => ?_, fun id moves => ?_, fun _ p _ _ generational => ?_,
      fun _ z _ found => ?_⟩
    · cases other with
      | second => simp only [Spaces.plan, setCopying, second]
      | first | immortal | large => rfl
    · rw [space_setCopying space₁] at found
      split at found
      case isTrue at_home =>
        cases found
        exact ⟨gone.clean, x, at_home ▸ space, gone.extent⟩
      case isFalse away =>
        have found := (same id z).mp found
        exact ⟨spared.clean (by rw [here]; exact away) found, z, found, rfl⟩
    · have bad := setCopying_mature space₁ found
      rw [second] at bad
      cases bad
    · rw [parts.1]
      exact ⟨rfl, rfl⟩
    · rw [parts.2]
      exact clean.large
    · rw [parts.2]
      exact clean.thinned.extent
    · rw [parts.2]
      exact clean.thinned.beside
    · rw [parts.2]
      exact clean.thinned.marks
    · have level : large.pages.excess = s.large.pages.excess := clean.thinned.level
      rw [setCopying_excess space₁]
      simp only [excess, second, level]
    · rw [parts.2]
      exact fun run live => ⟨clean.thinned.fewer run live, fun o dead => clean.gone o dead run live⟩
    · rw [second] at found
      cases found
    · by_cases at_home : id = other
      · rw [Evacuates, space_setCopying space₁, if_pos at_home] at moves
        exact Bool.false_ne_true (gone.settled.symm.trans moves)
      · rw [Evacuates, space_setCopying space₁, if_neg at_home] at moves
        refine spared.still id (by rw [here]; exact at_home) ?_
        cases id with
        | first | second => exact moves
        | immortal | large => exact moves.elim
    · rw [Spaces.plan, second] at generational
      cases generational
    · rw [second] at found
      cases found

end Spaces

end TracingHeap

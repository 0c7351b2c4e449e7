import TracingHeap.Proofs.Stamps

/-! Copying one object. The object is claimed, memory for the copy is taken, the bytes are moved, the
space of the copy takes it over, and the place of the copy is published. All other objects stay as they
are. -/

namespace TracingHeap

open List Memory

@[simp] theorem Heap.onCopying_ok {α : Type} {a : α} {h h' : Heap} {id : SpaceId}
    {step : Step (CopySpace × Memory) α} :
    onCopying id step h = .ok a h' ↔ ∃ x y m, h.spaces.space id = .copying x ∧
      step (x, h.memory) = .ok a (y, m) ∧
      { h with spaces := h.spaces.setCopying id y, memory := m } = h' := by
  cases id with
  | first =>
    simp only [onCopying, onSpaces_ok, Spaces.onCopying, Step.onBoth_ok, Focus.comp, Focus.fst, Focus.snd,
      Spaces.firstPart, Spaces.space, Spaces.setCopying, Prod.mk.injEq]
    constructor
    · rintro ⟨s, m, ⟨y, m', ran, rfl, rfl⟩, rfl⟩
      exact ⟨_, y, m', rfl, ran, rfl⟩
    · rintro ⟨x, y, m, same, ran, rfl⟩
      cases same
      exact ⟨_, m, ⟨y, m, ran, rfl, rfl⟩, rfl⟩
  | second =>
    simp only [onCopying, onSpaces_ok, Spaces.onCopying, Step.onBoth_ok, Focus.comp, Focus.fst, Focus.snd,
      Spaces.secondPart, Spaces.onTwin_ok, Spaces.space, Spaces.setCopying, Prod.mk.injEq]
    constructor
    · rintro ⟨s, m, ⟨z, m', ⟨x, y, same, ran, rfl⟩, rfl, rfl⟩, rfl⟩
      exact ⟨x, y, m', by rw [same], ran, rfl⟩
    · rintro ⟨x, y, m, same, ran, rfl⟩
      cases second : h.spaces.second with
      | mature z =>
        rw [second] at same
        cases same
      | twin z =>
        rw [second] at same
        cases same
        exact ⟨_, m, ⟨_, m, ⟨_, y, rfl, ran, rfl⟩, rfl, rfl⟩, rfl⟩
  | immortal =>
    simp only [onCopying, onSpaces_ok, Spaces.onCopying, Step.get_bind, Step.fail_ok, Spaces.space, false_and,
      exists_false, reduceCtorEq]
  | large =>
    simp only [onCopying, onSpaces_ok, Spaces.onCopying, Step.get_bind, Step.fail_ok, Spaces.space, false_and,
      exists_false, reduceCtorEq]

/-- A copying space with the state of an object and the table of copies replaced. -/
def CopySpace.noted (x : CopySpace) (o : Address) (state : UInt8) (copies : SideTable) (copied : Word) : CopySpace :=
  { x with forwarding := ⟨x.forwarding.states.put o state.toUInt64, copies⟩, copied }

namespace Spaces

variable {s s' s'' : Spaces} {m m' : Memory} {pieces : List Piece} {buffers : List (SpaceId × Span)}
  {keys : List (Nat × Address)} {p q : Piece} {id : SpaceId} {x y : CopySpace}

/-! ### Notes about one object -/

/-- The spaces have noted nothing new about some pieces. -/
structure Untouched (s s' : Spaces) (among : Piece → Prop) : Prop where
  steady : s.Steady s'
  reached : ∀ q, among q → (s'.Reached q ↔ s.Reached q)
  image : ∀ q, among q → s'.image q = s.image q
  claimed : ∀ q, among q → (s'.Claimed q ↔ s.Claimed q)

variable {among among' : Piece → Prop}

theorem Untouched.trans (one : s.Untouched s' among) (two : s'.Untouched s'' among) : s.Untouched s'' among where
  steady := one.steady.trans two.steady
  reached q inside := (two.reached q inside).trans (one.reached q inside)
  image q inside := (two.image q inside).trans (one.image q inside)
  claimed q inside := (two.claimed q inside).trans (one.claimed q inside)

theorem Untouched.mono (same : s.Untouched s' among) (fewer : ∀ q, among' q → among q) : s.Untouched s' among' :=
  ⟨same.steady, fun q inside => same.reached q (fewer q inside), fun q inside => same.image q (fewer q inside),
    fun q inside => same.claimed q (fewer q inside)⟩

theorem Restocked.untouched (same : s.Restocked s') (pages : s'.large.pages = s.large.pages) (level : s'.excess = s.excess) :
    s.Untouched s' among :=
  ⟨same.steady pages level, fun q _ => same.reached q, fun q _ => same.image q, fun q _ => same.claimed q⟩

theorem Marked.untouched (marked : Marked s s' m pieces buffers keys p) :
    s.Untouched s' fun q => q ∈ pieces ∧ q ≠ p where
  steady := marked.steady
  reached q inside := (marked.reached q inside.1).trans ⟨fun h => h.resolve_right inside.2, .inl⟩
  image q _ := marked.image q
  claimed q _ := marked.claimed q

theorem setCopying_alike (space : s.space id = .copying x) (pages : y.pages = x.pages) (id' : SpaceId) :
    (s.space id').Alike ((s.setCopying id y).space id') := by
  rw [space_setCopying space]
  split
  · rename_i same
    rw [same, space]
    exact pages
  · cases s.space id' with
    | copying z => exact rfl
    | markSweep z => exact ⟨rfl, rfl, rfl, rfl, rfl⟩
    | immortal z => exact rfl
    | large z => exact rfl

/-- Copying spaces have no part in the accounts. -/
theorem setCopying_excess (space : s.space id = .copying x) : (s.setCopying id y).excess = s.excess := by
  cases id with
  | first => rfl
  | second =>
    cases second : s.second with
    | mature z =>
      simp only [Spaces.space, second] at space
      cases space
    | twin z => simp only [excess, setCopying, second]
  | immortal => rfl
  | large => rfl

theorem setCopying_steady (space : s.space id = .copying x) (pages : y.pages = x.pages)
    (region : y.region = x.region) (evacuating : y.evacuating = x.evacuating) : s.Steady (s.setCopying id y) where
  plan := by
    cases id with
    | first => rfl
    | second =>
      cases second : s.second with
      | mature z =>
        simp only [Spaces.space, second] at space
        cases space
      | twin z => simp only [Spaces.plan, setCopying, second]
    | immortal => rfl
    | large => rfl
  extent id' := by
    rw [space_setCopying space]
    split
    · rename_i same
      rw [same, space]
      simp only [Space.extent, pages]
    · rfl
  region id' := by
    rw [space_setCopying space]
    split
    · rename_i same
      rw [same, space]
      simp only [Space.region, region]
    · rfl
  evacuates id' := by
    by_cases same : id' = id
    · unfold Evacuates
      rw [same, space_setCopying space, if_pos rfl, space]
      simp only [evacuating]
    · unfold Evacuates
      rw [space_setCopying space, if_neg same]
  fresh := by cases id <;> rfl
  youngOnly := by cases id <;> rfl
  large := by cases id <;> rfl
  level := setCopying_excess space

theorem setCopying_self (space : s.space id = .copying x) : s.setCopying id x = s := by
  cases id with
  | first =>
    cases space
    rfl
  | second =>
    cases second : s.second with
    | mature z =>
      simp only [Spaces.space, second] at space
      cases space
    | twin z =>
      simp only [Spaces.space, second] at space
      cases space
      simp only [setCopying, ← second]
  | immortal => rfl
  | large => rfl

theorem setCopying_mature {z : MarkSweepSpace} (space : s.space id = .copying x)
    (second : (s.setCopying id y).second = .mature z) : s.second = .mature z := by
  cases id with
  | first => exact second
  | second => cases second
  | immortal => cases space
  | large => cases space

section Forwarding

variable {state : UInt8} {copies : SideTable} {n : Word}

/-- A new state of one object of an evacuated space; the other objects keep their copies. -/
theorem Tracked.noted (tracked : s.Tracked pieces) (member : p ∈ pieces)
    (object : p.isObject = true) (space : s.space p.home = .copying x) (evacuating : x.evacuating = true)
    (value : state = 2 ∨ state = 3) (beside : copies.Beside x.pages.extent .word 4)
    (others : ∀ a : Address, x.pages.extent.span.lo ≤ a.toNat →
      x.forwarding.states.index p.start ≠ x.forwarding.states.index a → copies.entry a = x.forwarding.copies.entry a) :
    (s.setCopying p.home (x.noted p.start state copies n)).Tracked pieces where
  copying id z space' := by
    rw [space_setCopying space] at space'
    split at space'
    · rename_i same
      cases space'
      have old := tracked.copying _ x space
      refine ⟨old.states.put _ _, beside, fun a low high => ?_, fun a low high blank => ?_⟩
      · simp only [CopySpace.noted, SideTable.entryByte_put old.states.wide, SideTable.put_index]
        split
        · rename_i index
          exact .inr ⟨evacuating, value, p, member, same.symm, object, index⟩
        · rw [same]
          exact old.entries a low high
      · simp only [CopySpace.noted, SideTable.entryByte_put old.states.wide] at blank ⊢
        split at blank
        · rw [blank] at value
          rcases value with two | three
          · cases two
          · cases three
        · rename_i index
          exact (others a low index).trans (old.blank a low high blank)
    · exact tracked.copying id z space'
  mature z second := tracked.mature z (setCopying_mature space second)
  owned z second := tracked.owned z (setCopying_mature space second)
  immortal := by
    cases h : p.home with
    | first => exact tracked.immortal
    | second => exact tracked.immortal
    | immortal => exact tracked.immortal
    | large => exact tracked.immortal
  large := by
    cases h : p.home with
    | first => exact tracked.large
    | second => exact tracked.large
    | immortal => exact tracked.large
    | large => exact tracked.large

/-- The states of two objects are apart. -/
theorem Tracked.state_put (tracked : s.Tracked pieces) (held : s.Held m pieces buffers keys) (member : p ∈ pieces)
    (member' : q ∈ pieces) (differ : q ≠ p) (home : q.home = p.home) (space : s.space p.home = .copying x) :
    x.forwarding.states.index p.start ≠ x.forwarding.states.index q.start := by
  have old := tracked.copying _ x space
  have low := (held.inside member).1
  have low' := (held.inside member').1
  rw [home] at low'
  rw [space] at low low'
  exact old.states.index_ne low low' (held.far member member' (Ne.symm differ))

theorem noted_untouched (tracked : s.Tracked pieces) (held : s.Held m pieces buffers keys) (member : p ∈ pieces)
    (space : s.space p.home = .copying x)
    (others : ∀ a : Address, x.pages.extent.span.lo ≤ a.toNat →
      x.forwarding.states.index p.start ≠ x.forwarding.states.index a → copies.entry a = x.forwarding.copies.entry a) :
    s.Untouched (s.setCopying p.home (x.noted p.start state copies n)) fun q => q ∈ pieces ∧ q ≠ p where
  steady := setCopying_steady space rfl rfl rfl
  reached := by
    rintro q ⟨member', differ⟩
    have old := tracked.copying _ x space
    by_cases same : q.home = p.home
    · unfold Reached
      rw [same, space_setCopying space, if_pos rfl, space]
      simp only [CopySpace.noted, SideTable.entryByte_put old.states.wide,
        if_neg (tracked.state_put held member member' differ same space)]
    · exact reached_congr (by rw [space_setCopying space, if_neg same])
  image := by
    rintro q ⟨member', differ⟩
    have old := tracked.copying _ x space
    by_cases same : q.home = p.home
    · have low := (held.inside member').1
      rw [same, space] at low
      unfold Spaces.image
      rw [same, space_setCopying space, if_pos rfl, space]
      simp only [CopySpace.noted, SideTable.entryByte_put old.states.wide,
        if_neg (tracked.state_put held member member' differ same space),
        others q.start low (tracked.state_put held member member' differ same space)]
    · exact image_congr (by rw [space_setCopying space, if_neg same])
  claimed := by
    rintro q ⟨member', differ⟩
    have old := tracked.copying _ x space
    by_cases same : q.home = p.home
    · unfold Claimed
      rw [same, space_setCopying space, if_pos rfl, space]
      simp only [CopySpace.noted, SideTable.entryByte_put old.states.wide,
        if_neg (tracked.state_put held member member' differ same space)]
    · exact claimed_congr (by rw [space_setCopying space, if_neg same])

theorem noted_claimed (tracked : s.Tracked pieces) (space : s.space p.home = .copying x) :
    (s.setCopying p.home (x.noted p.start state copies n)).Claimed p ↔ state = 2 := by
  have old := tracked.copying _ x space
  unfold Claimed
  rw [space_setCopying space, if_pos rfl]
  simp only [CopySpace.noted, SideTable.entryByte_put old.states.wide, if_true]

theorem noted_reached (tracked : s.Tracked pieces) (space : s.space p.home = .copying x) :
    (s.setCopying p.home (x.noted p.start state copies n)).Reached p ↔ state = 3 := by
  have old := tracked.copying _ x space
  unfold Reached
  rw [space_setCopying space, if_pos rfl]
  simp only [CopySpace.noted, SideTable.entryByte_put old.states.wide, if_true]

theorem noted_image (tracked : s.Tracked pieces) (space : s.space p.home = .copying x) (published : state = 3) :
    (s.setCopying p.home (x.noted p.start state copies n)).image p = ⟨copies.entry p.start⟩ := by
  have old := tracked.copying _ x space
  unfold Spaces.image
  rw [space_setCopying space, if_pos rfl]
  simp only [CopySpace.noted, SideTable.entryByte_put old.states.wide, if_true, published]

end Forwarding

end Spaces

/-! ### Memory for a copy -/

variable {h h' h'' : Heap} {pieces : List Piece} {buffers rooms : List (SpaceId × Span)} {keys : List (Nat × Address)}
  {p q : Piece} {a : Address}

theorem Heap.Provided.plan (provided : h.Provided h') : h'.plan = h.plan := provided.restocked.plan

theorem Heap.current_congr (plan : h'.plan = h.plan) (half : h'.scope.flipped = h.scope.flipped) :
    h'.current = h.current := by
  unfold Heap.current
  rw [plan, half]

theorem Heap.Served.flipped (served : h.Served h') : h'.scope.flipped = h.scope.flipped := by
  obtain ⟨spaces, memory, demand, nextFull, shortages, rfl⟩ := served
  rfl

theorem Heap.Provided.current (provided : h.Provided h') : h'.current = h.current :=
  current_congr provided.plan provided.served.flipped

/-- The space that ordinary objects are copied into. -/
def Heap.destination (h : Heap) : SpaceId :=
  match h.plan with
  | .generational => .second
  | .semispace => h.current

theorem Heap.destination_congr (plan : h'.plan = h.plan) (half : h'.scope.flipped = h.scope.flipped) :
    h'.destination = h.destination := by
  unfold Heap.destination
  rw [plan, current_congr plan half]

theorem Heap.destination_ne_large (h : Heap) : h.destination ≠ .large := by
  unfold Heap.destination Heap.current
  cases h.plan with
  | generational => exact SpaceId.noConfusion
  | semispace =>
    cases h.scope.flipped with
    | true => exact SpaceId.noConfusion
    | false => exact SpaceId.noConfusion

/-- Only the plan matters for whether allocators can serve. -/
theorem AllocatorSet.Formed.of_plan {s : AllocatorSet} {spaces spaces' : Spaces} (formed : s.Formed spaces)
    (plan : spaces'.plan = spaces.plan) : s.Formed spaces' where
  bumps b member := by
    have bumpable := Spaces.bumpable_iff.mp (formed.bumps b member)
    exact Spaces.bumpable_iff.mpr (bumpable.imp_right (Or.imp_right fun second => ⟨second.1, plan.trans second.2⟩))
  cells := formed.cells

namespace CopyContext

/-- The allocators for copies, without memory. -/
def unused (current : SpaceId) : Plan → AllocatorSet
  | .generational => ⟨#[], #[.new], 1⟩
  | .semispace => ⟨#[.new current], #[], 1⟩

theorem unused_spaceOf {current : SpaceId} {plan : Plan} {entry : AllocatorSelector × SpaceId}
    (member : entry ∈ bindings current plan) : (unused current plan).spaceOf entry.1 = .ok entry.2 := by
  cases plan with
  | generational =>
    rcases mem_cons.mp member with rfl | last
    · rfl
    · obtain rfl := mem_singleton.mp last
      rfl
  | semispace =>
    rcases mem_cons.mp member with rfl | last
    · rfl
    · obtain rfl := mem_singleton.mp last
      rfl

/-- The allocators for copies are bound to the destinations of the present collection. -/
structure Aimed (c : CopyContext) (h : Heap) : Prop where
  formed : c.allocators.Formed h.spaces
  destinations : c.destinations = bindings h.current h.plan
  bound : (unused h.current h.plan).BoundAlike c.allocators

variable {c c' : CopyContext}

/-- Only the plan and the half in use matter. -/
theorem Aimed.carry (aimed : c.Aimed h) (plan : h'.plan = h.plan) (half : h'.scope.flipped = h.scope.flipped) :
    c.Aimed h' where
  formed := aimed.formed.of_plan plan
  destinations := by
    rw [plan, Heap.current_congr plan half]
    exact aimed.destinations
  bound := by
    rw [plan, Heap.current_congr plan half]
    exact aimed.bound

theorem alloc_ok {r : Request} {object : Address} (aimed : c.Aimed h) (small : r.bytes.toNat ≤ 8192)
    (plain : r.align = Padding.minAlignment)
    (estate : h.spaces.Estate h.memory rooms (c.allocators.buffers ++ buffers) (c.allocators.keys ++ keys))
    (ok : alloc object r (Collector.promotion h.plan) (c, h) = .ok a (c', h')) :
    c'.Aimed h' ∧ (h.Provided h' ∧ h.spaces.AgreeBut h'.spaces h.destination) ∧ (∀ q ∈ rooms, AgreeOn h.memory h'.memory q.2) ∧
      ∃ room, Allotted h' r a room ∧ h'.spaces.Estate h'.memory ((h.destination, room) :: rooms) (c'.allocators.buffers ++ buffers)
        (c'.allocators.keys ++ keys) := by
  simp only [alloc, Step.bind_ok, Step.lift_ok, Step.get_bind, Step.onBoth_ok, Focus.comp, Focus.fst, Focus.snd,
    allocatorsPart] at ok
  obtain ⟨large, _, ⟨shared, rfl⟩, answer, _, ⟨s', h₁, served, rfl⟩, ok⟩ := ok
  have few : large = false := by
    unfold Request.isLarge at shared
    rw [plain] at shared
    obtain ⟨size, found, same⟩ := except_bind_ok.mp shared
    rw [Padding.maxAlignedSize, Padding.Scheme.maxAlignedSize, if_pos (by decide)] at found
    cases found
    cases same
    apply decide_eq_false
    have limit : Request.sharedLimit.toNat = 8192 := rfl
    rw [UInt64.lt_iff_toNat_lt]
    omega
  have entry : (selector h.plan (Collector.promotion h.plan), h.destination) ∈ bindings h.current h.plan := by
    unfold Heap.destination Heap.current
    cases h.plan with
    | generational => exact mem_cons_self
    | semispace => exact mem_cons_self
  simp only [few, Bool.false_eq_true, if_false] at served
  obtain ⟨id, found, formed, alike, ⟨provided, elsewhere⟩, agree, -, some₁⟩ := AllocatorSet.alloc_ok aimed.formed estate served
  have same := found.symm.trans (aimed.bound.spaceOf (unused_spaceOf entry))
  cases same
  cases answer with
  | none =>
    simp only [Step.get_bind, Step.bind_ok, Step.throw_ok, and_false, exists_false] at ok
  | some place =>
    simp only [Step.pure_ok, Prod.mk.injEq] at ok
    obtain ⟨rfl, rfl, rfl⟩ := ok
    obtain ⟨-, room, allotted, estate', -⟩ := some₁ _ rfl
    refine ⟨⟨formed, ?_, ?_⟩, ⟨provided, elsewhere⟩, agree, room, allotted, estate'⟩
    · rw [provided.plan, provided.current]
      exact aimed.destinations
    · rw [provided.plan, provided.current]
      exact aimed.bound.trans alike

end CopyContext

/-! ### Taking over a copy -/

/-- The space of a copy takes it over: a cell of the mature store is marked, and the object's byte is new. -/
theorem Heap.adoptCopy_ok {u : Unit} (held : h.spaces.Held h.memory (q :: pieces) buffers keys)
    (tracked : h.spaces.Tracked (q :: pieces)) (object : q.isObject = true) (home : q.home = h.destination)
    (ok : adoptCopy h.destination q.start h = .ok u h') :
    ∃ s mark, h' = { h with spaces := s, memory := h.memory.setMark q.start mark } ∧
      s.Held h'.memory (q :: pieces) buffers keys ∧ s.Tracked (q :: pieces) ∧
      (h.spaces.Untouched s fun r => r ∈ pieces) ∧
      mark = (s.space q.home).freshMark ∧ ∀ x, s.second = .mature x → s.Reached q := by
  have placed := held.placed q mem_cons_self
  have marked : ∀ mark, AgreeOff h.memory (h.memory.setMark q.start mark) q.span := by
    intro mark
    have bound := held.bound mem_cons_self
    have low := placed.low
    have room := placed.room
    exact (setMark_agree h.memory mark (by omega) placed.aligned).mono ⟨low, by simp only; omega⟩
  rw [adoptCopy, Step.get_bind] at ok
  unfold destination at home ok
  cases plan : h.plan with
  | generational =>
    simp only [plan] at home ok
    obtain ⟨x, second⟩ := Spaces.generational_iff.mp plan
    simp only [Spaces.space, second, onMature_ok] at ok
    obtain ⟨x', y, m, same, adopted, rfl⟩ := ok
    cases same
    obtain ⟨cell, found, rfl, rfl⟩ := MarkSweepSpace.adoptCopy_ok adopted
    obtain ⟨cell', found', start⟩ := held.cellOf mem_cons_self home second
    rw [found] at found'
    cases found'
    have seen := Spaces.Marked.of_mature held tracked mem_cons_self object home second start
    refine ⟨_, x.freshMark, rfl, (seen.held.write mem_cons_self (marked _)).1, seen.tracked,
      seen.untouched.mono fun r inside => ⟨mem_cons_of_mem _ inside, held.fresh inside⟩, ?_,
      fun y same => (seen.reached q mem_cons_self).mpr (.inr rfl)⟩
    rw [seen.steady.freshMark, home]
    simp only [Spaces.space, second, Space.freshMark]
  | semispace =>
    simp only [plan] at home ok
    cases second : h.spaces.second with
    | mature y =>
      rw [Heap.plan, Spaces.plan, second] at plan
      cases plan
    | twin y =>
      have space : ∃ x, h.spaces.space h.current = .copying x := by
        unfold current
        simp only [plan]
        split
        · exact ⟨y, by simp only [Spaces.space, second]⟩
        · exact ⟨_, rfl⟩
      obtain ⟨x, space⟩ := space
      simp only [space, onCopying_ok, Step.modify_ok, Prod.mk.injEq] at ok
      obtain ⟨z, _, _, same, ⟨rfl, rfl⟩, rfl⟩ := ok
      cases same
      exact ⟨h.spaces, x.freshMark, by rw [Spaces.setCopying_self space], (held.write mem_cons_self (marked _)).1,
        tracked, ⟨.refl _, fun _ _ => Iff.rfl, fun _ _ => rfl, fun _ _ => Iff.rfl⟩, by
          rw [home, space]
          rfl, fun x same => by
          rw [second] at same
          cases same⟩

/-! ### The whole copy -/

/-- The copy of an object, in the space that it was promoted to. -/
structure CopyOf (h h' : Heap) (p q : Piece) : Prop where
  bytes : q.bytes = p.bytes
  object : q.isObject = true
  home : q.home = h.destination
  content : Copied h.memory h'.memory p.start q.start p.bytes
  mark : h'.memory.mark q.start = (h'.spaces.space q.home).freshMark
  mature : ∀ x, h'.spaces.second = .mature x → h'.spaces.Reached q

/-- What a collector has after it copied an object: one more piece, and nothing else changed. -/
structure CopyMade (h h' : Heap) (pieces : List Piece) (p q : Piece) : Prop where
  copy : CopyOf h h' p q
  served : h.Served h'
  tracked : h'.spaces.Tracked (q :: pieces)
  untouched : h.spaces.Untouched h'.spaces fun r => r ∈ pieces
  memory : ∀ r ∈ pieces, AgreeOn h.memory h'.memory r.span

namespace CopyContext

variable {c c' : CopyContext}

/-- The first destination is that of ordinary objects. -/
theorem adopt_ok {u : Unit} (destinations : c.destinations = bindings h.current h.plan)
    (holds : (h.spaces.space h.destination).extent.holds a = true) (ok : adopt a (c, h) = .ok u (c', h')) :
    c' = c ∧ Heap.adoptCopy h.destination a h = .ok u h' := by
  obtain ⟨selector, others, first⟩ : ∃ selector others, c.destinations = (selector, h.destination) :: others := by
    rw [destinations]
    unfold Heap.destination
    cases h.plan with
    | generational => exact ⟨_, _, rfl⟩
    | semispace => exact ⟨_, _, rfl⟩
  rw [adopt, Step.get_bind] at ok
  simp only [first, find?_cons, holds, Step.on_ok, Focus.snd, Prod.mk.injEq] at ok
  obtain ⟨_, adopted, rfl, rfl⟩ := ok
  exact ⟨rfl, adopted⟩

theorem copy_ok (aimed : c.Aimed h)
    (held : h.spaces.Held h.memory pieces (c.allocators.buffers ++ buffers) (c.allocators.keys ++ keys))
    (tracked : h.spaces.Tracked pieces) (member : p ∈ pieces)
    (size : (h.memory.header p.start).size.toNat = p.bytes) (small : p.bytes ≤ 8192)
    (ok : copy p.start (Collector.promotion h.plan) (c, h) = .ok a (c', h')) :
    ∃ q : Piece, q.start = a ∧ CopyMade h h' pieces p q ∧ c'.Aimed h' ∧
      h'.spaces.Held h'.memory (q :: pieces) (c'.allocators.buffers ++ buffers) (c'.allocators.keys ++ keys) := by
  simp only [copy, Step.get_bind, Step.bind_ok, Step.on_ok, Focus.comp, Focus.snd, Heap.memoryPart, Step.modify_ok,
    Step.pure_ok] at ok
  obtain ⟨place, ⟨c₁, h₁⟩, allocated, _, _, ⟨m, rfl, rfl⟩, _, _, adopted, rfl, rfl⟩ := ok
  have bytes : (h.memory.header p.start).size.toUInt64.toNat = p.bytes := by
    rw [UInt32.toNat_toUInt64, size]
  obtain ⟨aimed₁, ⟨provided, elsewhere⟩, agree, room, allotted, estate⟩ :=
    alloc_ok aimed (r := ⟨_, _, _⟩) (by rw [bytes]; exact small) rfl held.estate allocated
  have words := Padding.allocationSize_whole (h.memory.header p.start).size.toUInt64
  have fits := @Padding.allocationSize_fits (h.memory.header p.start).size.toUInt64 (by rw [bytes]; omega)
  rw [bytes] at fits
  have high := allotted.high
  have low := allotted.low
  have aligned := allotted.aligns.1
  simp only [Request.size] at high
  have plan₁ := provided.plan
  have half₁ := provided.served.flipped
  -- The copy as a piece.
  obtain ⟨q, rfl, bytes', home, span, object⟩ : ∃ q : Piece, q.start = place ∧ q.bytes = p.bytes ∧
      q.home = h.destination ∧ q.span = room ∧ q.isObject = true :=
    ⟨⟨place, p.bytes, h.destination, room, true⟩, rfl, rfl, rfl, rfl, rfl⟩
  have placed : q.Placed := by
    refine ⟨aligned, ?_, ?_, ?_, ?_⟩
    · rw [span]; exact low
    · rw [span]; exact allotted.near
    · rw [span, bytes']; omega
    · rw [span]; omega
  have held₁ := Spaces.Held.add estate held.placed placed home span
  have tracked₁ : h₁.spaces.Tracked (q :: pieces) := by
    exact (provided.restocked.tracked tracked).add fun large => absurd (home.symm.trans large) h.destination_ne_large
  have placed' := held.placed p member
  have room' := placed'.high
  have bound := held.bound member
  have bound' := held₁.bound mem_cons_self
  rw [span] at bound'
  have apart : p.span.Apart room := by
    have apart := held₁.apart (mem_cons_of_mem _ member) mem_cons_self (held₁.fresh member)
    rw [span] at apart
    exact apart
  have low' := placed'.low
  unfold Span.Apart at apart
  have moved := copy_agree h₁.memory p.start q.start (h.memory.header p.start).size.toNat placed'.aligned aligned
    (by omega) (by omega) (by omega)
  have inner : AgreeOff h₁.memory (h₁.memory.copy p.start q.start (h.memory.header p.start).size.toNat) q.span := by
    refine moved.mono ⟨?_, ?_⟩
    · rw [span]; exact low
    · rw [span]; simp only; omega
  obtain ⟨held₂, kept₂⟩ := held₁.write mem_cons_self inner
  obtain ⟨h₂, same₂⟩ : ∃ h₂, h₂ = { h₁ with
      memory := h₁.memory.copy p.start q.start (h.memory.header p.start).size.toNat } := ⟨_, rfl⟩
  have spaces₂ : h₂.spaces = h₁.spaces := by rw [same₂]
  have memory₂ : h₂.memory = h₁.memory.copy p.start q.start (h.memory.header p.start).size.toNat := by rw [same₂]
  have scope₂ : h₂.scope = h₁.scope := by rw [same₂]
  rw [← same₂] at adopted
  rw [← spaces₂, ← memory₂] at held₂
  rw [← spaces₂] at tracked₁
  have plan₂ : h₂.plan = h.plan := by rw [Heap.plan, spaces₂]; exact plan₁
  have half₂ : h₂.scope.flipped = h.scope.flipped := by rw [scope₂]; exact half₁
  have home₂ : q.home = h₂.destination := home.trans (Heap.destination_congr plan₂ half₂).symm
  have aimed₂ := aimed.carry plan₂ half₂
  have holds : (h₂.spaces.space h₂.destination).extent.holds q.start = true := by
    rw [← home₂]
    exact Extent.holds_iff.mpr (held₂.inside mem_cons_self)
  obtain ⟨rfl, taken⟩ := adopt_ok (by
    rw [plan₂, Heap.current_congr plan₂ half₂, ← plan₁, ← provided.current]
    exact aimed₁.destinations) holds adopted
  obtain ⟨s, mark, rfl, held₃, tracked₃, untouched, fresh, mature⟩ := Heap.adoptCopy_ok held₂ tracked₁ object home₂ taken
  have plan₃ : Heap.plan { h₂ with spaces := s, memory := h₂.memory.setMark q.start mark } = h.plan :=
    untouched.steady.plan.trans plan₂
  refine ⟨q, rfl, ⟨⟨bytes', object, home, fun k inside other => ?_, ?_, mature⟩, ?_, tracked₃, ?_,
    fun r member' => ?_⟩, aimed₁.carry ?_ ?_, held₃⟩
  · rw [byte_setMark _ _ (by omega), if_neg (by omega), memory₂, byte_copy _ _ _ _ _ placed'.aligned aligned
      (by omega) (by omega) (by omega), if_pos (by omega)]
    have same := agree _ (mem_map_of_mem member) ((p.start.toNat + k) / 8)
      (by have := (held.whole member).1; simp only [Piece.held]; omega) (by simp only [Piece.held]; omega)
    rw [show p.start.toNat + (q.start.toNat + k - q.start.toNat) = p.start.toNat + k by omega]
    exact byte_of_word same rfl
  · rw [mark_setMark _ _ (by omega)]
    exact fresh
  · refine provided.served.trans ?_
    rw [same₂]
    exact Heap.served_pages h₁ _ _
  · refine (provided.restocked.untouched (congrArg _ (elsewhere.large h.destination_ne_large)) provided.level).trans ?_
    rw [← spaces₂]
    exact untouched
  · refine (agree _ (mem_map_of_mem member')).trans ((kept₂ r (mem_cons_of_mem _ member') (held₁.fresh member')).trans ?_)
    rw [← memory₂]
    have apart := held₂.apart mem_cons_self (mem_cons_of_mem _ member') (Ne.symm (held₂.fresh member'))
    refine (setMark_agree h₂.memory mark (by omega) aligned).agreeOn (apart.mono ⟨?_, ?_⟩ (.refl _))
    · rw [span]; exact low
    · rw [span]; simp only; omega
  · rw [plan₁]
    exact plan₃
  · rw [half₁]
    exact half₂

end CopyContext

end TracingHeap

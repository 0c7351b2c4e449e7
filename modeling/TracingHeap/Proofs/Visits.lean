import TracingHeap.Proofs.Acquisition
import TracingHeap.Proofs.Claims

/-! What changes when one object is reached. A space that marks in place changes one entry and no memory;
what it notes about every other piece stays as it was. -/

namespace TracingHeap

open List Memory

namespace Spaces

/-- The spaces with one copying space replaced. -/
def setCopying (s : Spaces) : SpaceId → CopySpace → Spaces
  | .first, x => { s with first := x }
  | .second, x => { s with second := .twin x }
  | _, _ => s

variable {s s' s'' : Spaces} {m m' : Memory} {pieces : List Piece} {buffers : List (SpaceId × Span)}
  {keys : List (Nat × Address)} {p q : Piece} {id : SpaceId}

theorem space_setCopying {x y : CopySpace} (space : s.space id = .copying x) (id' : SpaceId) :
    (s.setCopying id y).space id' = if id' = id then .copying y else s.space id' := by
  cases id with
  | first => cases id' <;> rfl
  | second => cases id' <;> rfl
  | immortal => cases space
  | large => cases space

/-- What no step of tracing changes. -/
structure Steady (s s' : Spaces) : Prop where
  plan : s'.plan = s.plan
  extent : ∀ id, (s'.space id).extent = (s.space id).extent
  region : ∀ id, (s'.space id).region = (s.space id).region
  evacuates : ∀ id, s'.Evacuates id ↔ s.Evacuates id
  fresh : s'.large.treadmill.fresh = s.large.treadmill.fresh
  youngOnly : s'.large.youngOnly = s.large.youngOnly
  large : s'.large.pages = s.large.pages
  level : s'.excess = s.excess

theorem Steady.refl (s : Spaces) : s.Steady s := ⟨rfl, fun _ => rfl, fun _ => rfl, fun _ => Iff.rfl, rfl, rfl, rfl, rfl⟩

theorem Steady.trans (one : s.Steady s') (two : s'.Steady s'') : s.Steady s'' where
  plan := two.plan.trans one.plan
  extent id := (two.extent id).trans (one.extent id)
  region id := (two.region id).trans (one.region id)
  evacuates id := (two.evacuates id).trans (one.evacuates id)
  fresh := two.fresh.trans one.fresh
  youngOnly := two.youngOnly.trans one.youngOnly
  large := two.large.trans one.large
  level := two.level.trans one.level

theorem Restocked.region (same : s.Restocked s') (id : SpaceId) : (s'.space id).region = (s.space id).region := by
  rcases same.space_cases id with ⟨x, _, space, space'⟩ | ⟨x, _, _, _, _, _, _, _, space, space', _⟩ | ⟨x, _, space, space'⟩ |
    ⟨x, _, space, space'⟩
  all_goals
    rw [space, space']
    rfl

theorem Restocked.steady (same : s.Restocked s') (pages : s'.large.pages = s.large.pages) (level : s'.excess = s.excess) :
    s.Steady s' where
  plan := same.plan
  extent := same.extent
  region := same.region
  evacuates := same.evacuates
  fresh := by
    obtain ⟨p, large⟩ := same.large
    rw [large]
  youngOnly := by
    obtain ⟨p, large⟩ := same.large
    rw [large]
  large := pages
  level := level

/-- What was noted of a piece, and where it is, depends only on the space of the piece. -/
theorem reached_congr (same : s'.space p.home = s.space p.home) : s'.Reached p ↔ s.Reached p := by
  unfold Reached
  rw [same]

theorem claimed_congr (same : s'.space p.home = s.space p.home) : s'.Claimed p ↔ s.Claimed p := by
  unfold Claimed
  rw [same]

theorem image_congr (same : s'.space p.home = s.space p.home) : s'.image p = s.image p := by
  unfold image
  rw [same]

/-- One more object was reached where it is, and nothing else changed. -/
structure Marked (s s' : Spaces) (m : Memory) (pieces : List Piece) (buffers : List (SpaceId × Span))
    (keys : List (Nat × Address)) (p : Piece) : Prop where
  held : s'.Held m pieces buffers keys
  tracked : s'.Tracked pieces
  steady : s.Steady s'
  reached : ∀ q ∈ pieces, s'.Reached q ↔ s.Reached q ∨ q = p
  image : ∀ q, s'.image q = s.image q
  claimed : ∀ q, s'.Claimed q ↔ s.Claimed q

/-! ### The mature store -/

theorem mature_alike {x y : MarkSweepSpace} (second : s.second = .mature x) (pages : y.pages = x.pages)
    (starts : y.blockStarts = x.blockStarts) (classes : y.blockClasses = x.blockClasses)
    (available : y.available = x.available) (blocks : y.blocks = x.blocks) (id : SpaceId) :
    (s.space id).Alike ({ s with second := .mature y }.space id) := by
  cases id with
  | second =>
    simp only [space, second, Space.Alike]
    exact ⟨pages, starts, classes, available, blocks⟩
  | first => exact rfl
  | immortal => exact rfl
  | large => exact rfl

/-- The cells of pieces have marks of their own. -/
theorem Held.cell_index_ne (held : s.Held m pieces buffers keys) {t : SideTable} (beside : t.Beside (s.space .second).extent .byte 4)
    (member : p ∈ pieces) (member' : q ∈ pieces) (home : p.home = .second) (home' : q.home = .second) (differ : p ≠ q)
    {cell cell' : Address} (start : cell.toNat = p.span.lo) (start' : cell'.toNat = q.span.lo) : t.index cell ≠ t.index cell' := by
  have within := (held.within member).1
  have within' := (held.within member').1
  rw [home] at within
  rw [home'] at within'
  have placed := held.placed p member
  have placed' := held.placed q member'
  have low := placed.low
  have room := placed.room
  have low' := placed'.low
  have room' := placed'.room
  have apart := held.apart member member' differ
  unfold Span.Apart at apart
  exact beside.index_ne (start ▸ within) (start' ▸ within') (by omega)

/-- The mark of a cell of the mature store, as the entry of its start. -/
theorem Marked.of_mature {x : MarkSweepSpace} {cell : Address} (held : s.Held m pieces buffers keys)
    (tracked : s.Tracked pieces) (member : p ∈ pieces) (object : p.isObject = true) (home : p.home = .second)
    (second : s.second = .mature x) (start : cell.toNat = p.span.lo) :
    Marked s { s with second := .mature { x with marks := x.marks.put cell x.current.toUInt64 } } m pieces buffers
      keys p := by
  have old := tracked.mature x second
  have here : s.space .second = .markSweep x := by simp only [space, second]
  refine ⟨held.alike (mature_alike second rfl rfl rfl rfl rfl), ?_, ?_, ?_, ?_, ?_⟩
  · refine ⟨fun id y space' => ?_, fun y second' => ?_, fun y second' prepared => ?_, tracked.immortal, tracked.large⟩
    · cases id with
      | first => exact tracked.copying .first y space'
      | second => cases space'
      | immortal => cases space'
      | large => cases space'
    · cases second'
      refine ⟨old.table.put _ _, old.current, fun a low high => ?_⟩
      simp only [SideTable.entryByte_put old.table.wide, SideTable.put_index]
      split
      · rename_i same
        obtain ⟨b, inside, k, small, span⟩ := held.cell member home second
        exact .inr ⟨.inl rfl, b, inside, k, small, cell, by rw [start, span], same⟩
      · exact old.entries a low high
    · cases second'
      intro a low high marked
      simp only [SideTable.entryByte_put old.table.wide] at marked
      split at marked
      · rename_i same
        exact ⟨p, member, home, object, cell, start, same⟩
      · exact tracked.owned x second prepared a low high marked
  · refine ⟨?_, fun id => ?_, fun id => ?_, fun id => ?_, rfl, rfl, rfl, ?_⟩
    · simp only [Spaces.plan, second]
    · cases id with
      | second => rw [here]; rfl
      | first => rfl
      | immortal => rfl
      | large => rfl
    · cases id with
      | second => rw [here]; rfl
      | first => rfl
      | immortal => rfl
      | large => rfl
    · cases id with
      | second => simp only [Evacuates, space, second]
      | first => exact Iff.rfl
      | immortal => exact Iff.rfl
      | large => exact Iff.rfl
    · simp only [excess, second, MarkSweepSpace.excess]
  · intro q inside
    by_cases same : q.home = .second
    · have mine : ∀ c : Address, c.toNat = q.span.lo →
          (x.marks.put cell x.current.toUInt64).entryByte c = if q = p then x.current else x.marks.entryByte c := by
        intro c place
        rw [SideTable.entryByte_put old.table.wide]
        by_cases equal : q = p
        · have same : cell = c := Address.toNat_inj.mp (by rw [start, place, equal])
          rw [if_pos equal, same, if_pos rfl]
        · have beside : x.marks.Beside (s.space .second).extent .byte 4 := by
            rw [here]
            exact old.table
          rw [if_neg equal, if_neg (held.cell_index_ne beside member inside home same (Ne.symm equal) start place)]
      simp only [Reached, same, here]
      simp only [space]
      constructor
      · rintro ⟨c, place, marked⟩
        rw [mine c place] at marked
        by_cases equal : q = p
        · exact .inr equal
        · rw [if_neg equal] at marked
          exact .inl ⟨c, place, marked⟩
      · rintro (⟨c, place, marked⟩ | equal)
        · refine ⟨c, place, ?_⟩
          rw [mine c place]
          split
          · rfl
          · exact marked
        · refine ⟨cell, by rw [start, equal], ?_⟩
          rw [mine cell (by rw [start, equal]), if_pos equal]
    · have differ : q ≠ p := fun equal => same (equal ▸ home)
      have space : ({ s with second := .mature { x with marks := x.marks.put cell x.current.toUInt64 } } : Spaces).space
          q.home = s.space q.home := by
        cases h : q.home with
        | second => exact absurd h same
        | first => rfl
        | immortal => rfl
        | large => rfl
      rw [reached_congr space]
      simp only [differ, or_false]
  · intro q
    by_cases same : q.home = .second
    · unfold Spaces.image
      rw [same, here]
      rfl
    · apply image_congr
      cases h : q.home with
      | second => exact absurd h same
      | first => rfl
      | immortal => rfl
      | large => rfl
  · intro q
    by_cases same : q.home = .second
    · unfold Claimed
      rw [same, here]
      rfl
    · apply claimed_congr
      cases h : q.home with
      | second => exact absurd h same
      | first => rfl
      | immortal => rfl
      | large => rfl

/-! ### The immortal space -/

theorem immortal_alike {y : ImmortalSpace} (pages : y.pages = s.immortal.pages) (id : SpaceId) :
    (s.space id).Alike ({ s with immortal := y }.space id) := by
  cases id with
  | immortal => exact pages
  | first => exact rfl
  | large => exact rfl
  | second =>
    cases second : s.second with
    | mature x =>
      simp only [space, second, Space.Alike]
      exact ⟨trivial, trivial, trivial, trivial, trivial⟩
    | twin x => simp only [space, second, Space.Alike]

theorem Marked.of_immortal (held : s.Held m pieces buffers keys) (tracked : s.Tracked pieces) (member : p ∈ pieces)
    (home : p.home = .immortal) :
    Marked s { s with immortal := { s.immortal with
      marks := s.immortal.marks.put p.start s.immortal.current.toUInt64 } } m pieces buffers keys p := by
  have old := tracked.immortal
  have others : ∀ id, id ≠ .immortal → ({ s with immortal := { s.immortal with
      marks := s.immortal.marks.put p.start s.immortal.current.toUInt64 } } : Spaces).space id = s.space id := by
    intro id other
    cases id with
    | immortal => exact absurd rfl other
    | first => rfl
    | second => rfl
    | large => rfl
  refine ⟨held.alike (immortal_alike rfl), ?_, ?_, ?_, ?_, ?_⟩
  · refine ⟨fun id y space' => ?_, tracked.mature, tracked.owned, ⟨old.table.put _ _, old.current⟩, tracked.large⟩
    cases id with
    | immortal => cases space'
    | first => exact tracked.copying .first y space'
    | second => exact tracked.copying .second y space'
    | large => cases space'
  · refine ⟨rfl, fun id => ?_, fun id => ?_, fun id => ?_, rfl, rfl, rfl, rfl⟩ <;> cases id <;> rfl
  · intro q inside
    by_cases same : q.home = .immortal
    · have low : s.immortal.pages.extent.start.toNat ≤ q.start.toNat := by
        have here := (held.inside inside).1
        rw [same] at here
        exact here
      have low' : s.immortal.pages.extent.start.toNat ≤ p.start.toNat := by
        have here := (held.inside member).1
        rw [home] at here
        exact here
      simp only [Reached, same]
      simp only [space, SideTable.entryByte_put old.table.wide]
      by_cases equal : q = p
      · rw [equal, if_pos rfl]
        simp
      · rw [if_neg (old.table.index_ne low' low (held.far member inside (Ne.symm equal)))]
        simp only [equal, or_false]
    · have differ : q ≠ p := fun equal => same (equal ▸ home)
      rw [reached_congr (others _ same)]
      simp only [differ, or_false]
  · intro q
    by_cases same : q.home = .immortal
    · unfold Spaces.image
      rw [same]
      rfl
    · exact image_congr (others _ same)
  · intro q
    by_cases same : q.home = .immortal
    · unfold Claimed
      rw [same]
      rfl
    · exact claimed_congr (others _ same)

/-! ### The large object space -/

theorem large_alike {y : LargeSpace} (pages : y.pages = s.large.pages) (id : SpaceId) :
    (s.space id).Alike ({ s with large := y }.space id) := by
  cases id with
  | large => exact pages
  | first => exact rfl
  | immortal => exact rfl
  | second =>
    cases second : s.second with
    | mature x =>
      simp only [space, second, Space.Alike]
      exact ⟨trivial, trivial, trivial, trivial, trivial⟩
    | twin x => simp only [space, second, Space.Alike]

/-- A large object lies in the first page of a run of its own. -/
theorem Held.large_run (held : s.Held m pieces buffers keys) (member : p ∈ pieces) (home : p.home = .large) :
    ∃ run ∈ s.large.pages.map.live, p.span = s.large.pages.spanOf run ∧
      ∀ {t : SideTable}, t.Beside s.large.pages.extent .byte 12 → t.index p.start = run.first := by
  have housed := held.housed member
  rw [home] at housed
  obtain ⟨run, live, span⟩ := housed
  refine ⟨run, live, span, fun beside => ?_⟩
  have placed := held.placed p member
  have low := placed.low
  have near := placed.near
  rw [span, Pages.Runs.spanOf] at low near
  rw [beside.index_eq (k := 12) rfl (by decide) (by simp only at low; omega)]
  simp only at low near
  omega

theorem Held.large_index_ne (held : s.Held m pieces buffers keys) {t : SideTable}
    (beside : t.Beside s.large.pages.extent .byte 12) (member : p ∈ pieces) (member' : q ∈ pieces)
    (home : p.home = .large) (home' : q.home = .large) (differ : p.start ≠ q.start) :
    t.index p.start ≠ t.index q.start := by
  obtain ⟨run, -, span, index⟩ := held.large_run member home
  obtain ⟨run', -, span', index'⟩ := held.large_run member' home'
  have apart := held.apart member member' fun same => differ (by rw [same])
  have placed := held.placed p member
  have placed' := held.placed q member'
  have room := placed.room
  have low := placed.low
  have room' := placed'.room
  have low' := placed'.low
  rw [index beside, index' beside]
  intro same
  rw [span, span', Span.Apart, Pages.Runs.spanOf, Pages.Runs.spanOf] at apart
  rw [span, Pages.Runs.spanOf] at room low
  rw [span', Pages.Runs.spanOf] at room' low'
  simp only at apart room low room' low'
  omega

/-- The claimed object moves from its collected list to the survivors. -/
theorem Marked.of_large {young : Bool} (held : s.Held m pieces buffers keys) (tracked : s.Tracked pieces)
    (member : p ∈ pieces) (home : p.home = .large) (object : p.isObject = true)
    (none_fresh : ∀ o, o ∉ s.large.treadmill.fresh)
    (on : young = true ∧ p.start ∈ s.large.treadmill.young ∨ young = false ∧ p.start ∈ s.large.treadmill.old) :
    Marked s { s with large := { s.large with
      marks := s.large.marks.put p.start s.large.current.toUInt64
      treadmill := s.large.saved p.start young } } m pieces buffers keys p := by
  have old := tracked.large
  have others : ∀ id, id ≠ .large → ({ s with large := { s.large with
      marks := s.large.marks.put p.start s.large.current.toUInt64
      treadmill := s.large.saved p.start young } } : Spaces).space id = s.space id := by
    intro id other
    cases id with
    | large => exact absurd rfl other
    | first => rfl
    | second => rfl
    | immortal => rfl
  -- The lists after the move, in terms of those before.
  have survivors : ∀ o, o ∈ (s.large.saved p.start young).survivors ↔ o = p.start ∨ o ∈ s.large.treadmill.survivors := by
    intro o
    unfold LargeSpace.saved
    split <;> exact mem_insert_address
  have fresh : (s.large.saved p.start young).fresh = s.large.treadmill.fresh := by
    unfold LargeSpace.saved
    split <;> rfl
  have waiting : ∀ o, (o ∈ (s.large.saved p.start young).young → o ∈ s.large.treadmill.young ∧ o ≠ p.start) ∧
      (o ∈ (s.large.saved p.start young).old → o ∈ s.large.treadmill.old ∧ o ≠ p.start) ∧
      (o ∈ s.large.treadmill.young ∨ o ∈ s.large.treadmill.old → o ≠ p.start →
        o ∈ (s.large.saved p.start young).young ∨ o ∈ (s.large.saved p.start young).old) := by
    have separate : ∀ o, o ∈ s.large.treadmill.young → o ∈ s.large.treadmill.old → False := by
      intro o inYoung inOld
      have mark := old.young o inYoung
      obtain ⟨full, mark'⟩ := old.old o inOld
      rw [mark', full] at mark
      rcases old.current with value | value <;> rw [value] at mark <;> revert mark <;> decide
    intro o
    unfold LargeSpace.saved
    rcases on with ⟨rfl, inYoung⟩ | ⟨rfl, inOld⟩
    · simp only [if_true, mem_erase_address]
      exact ⟨fun ⟨differ, within⟩ => ⟨within, differ⟩,
        fun within => ⟨within, fun same => separate o (same ▸ inYoung) within⟩,
        fun within differ => within.imp (fun h => ⟨differ, h⟩) id⟩
    · simp only [Bool.false_eq_true, if_false, mem_erase_address]
      exact ⟨fun within => ⟨within, fun same => separate o within (same ▸ inOld)⟩,
        fun ⟨differ, within⟩ => ⟨within, differ⟩,
        fun within differ => within.imp id fun h => ⟨differ, h⟩⟩
  have kept : ∀ o, o ≠ p.start → (o ∈ s.large.treadmill.fresh ∨ o ∈ s.large.treadmill.survivors ∨
      o ∈ s.large.treadmill.young ∨ o ∈ s.large.treadmill.old) →
      (s.large.marks.put p.start s.large.current.toUInt64).entryByte o = s.large.marks.entryByte o := by
    intro o differ listed
    obtain ⟨q, inside, home', -, rfl⟩ := old.listed o listed
    rw [SideTable.entryByte_put old.table.wide,
      if_neg (held.large_index_ne old.table member inside home home' (Ne.symm differ))]
  refine ⟨held.alike (large_alike rfl), ?_, ?_, ?_, ?_, ?_⟩
  · refine ⟨fun id y space' => ?_, tracked.mature, tracked.owned, tracked.immortal, ?_⟩
    · cases id with
      | large => cases space'
      | first => exact tracked.copying .first y space'
      | second => exact tracked.copying .second y space'
      | immortal => cases space'
    · refine ⟨old.table.put _ _, old.current, fun o on => ?_, fun o on => ?_, fun o on => ?_, fun o on => ?_,
        fun o on => ?_, fun q inside home' object' => ?_⟩
      · exact absurd (fresh ▸ on) (none_fresh o)
      · by_cases same : o = p.start
        · rw [same]
          exact (SideTable.entryByte_put old.table.wide ..).trans (if_pos rfl)
        · have before := ((survivors o).mp on).resolve_left same
          exact (kept o same (.inr (.inl before))).trans (old.survivors o before)
      · obtain ⟨before, differ⟩ := (waiting o).1 on
        exact (kept o differ (.inr (.inr (.inl before)))).trans (old.young o before)
      · obtain ⟨before, differ⟩ := (waiting o).2.1 on
        obtain ⟨full, mark⟩ := old.old o before
        exact ⟨full, (kept o differ (.inr (.inr (.inr before)))).trans mark⟩
      · by_cases same : o = p.start
        · exact ⟨p, member, home, object, same.symm⟩
        · refine old.listed o ?_
          rcases on with on | on | on | on
          · exact .inl (fresh ▸ on)
          · exact .inr (.inl (((survivors o).mp on).resolve_left same))
          · exact .inr (.inr (.inl ((waiting o).1 on).1))
          · exact .inr (.inr (.inr ((waiting o).2.1 on).1))
      · by_cases same : q.start = p.start
        · exact .inr (.inl ((survivors _).mpr (.inl same)))
        · rcases old.complete q inside home' object' with on | on | on
          · exact .inl (fresh ▸ on)
          · exact .inr (.inl ((survivors _).mpr (.inr on)))
          · exact .inr (.inr ((waiting _).2.2 on same))
  · refine ⟨rfl, fun id => ?_, fun id => ?_, fun id => ?_, fresh, rfl, rfl, rfl⟩ <;> cases id <;> rfl
  · intro q inside
    by_cases same : q.home = .large
    · unfold Reached
      rw [same]
      refine (survivors _).trans ?_
      rw [or_comm]
      exact or_congr_right ⟨fun equal => held.start_inj inside member equal, fun equal => by rw [equal]⟩
    · have differ : q ≠ p := fun equal => same (equal ▸ home)
      rw [reached_congr (others _ same)]
      simp only [differ, or_false]
  · intro q
    by_cases same : q.home = .large
    · unfold Spaces.image
      rw [same]
      rfl
    · exact image_congr (others _ same)
  · intro q
    by_cases same : q.home = .large
    · unfold Claimed
      rw [same]
      rfl
    · exact claimed_congr (others _ same)

end Spaces

end TracingHeap

import TracingHeap.Proofs.Pieces

/-! What the spaces note about pieces while a collection traces. Every space has its own way to say that
an object was reached: a forwarding state, a mark with the present value, or a place among the survivors.
All four are read here as one property of pieces. -/

namespace TracingHeap

open List Memory

/-! ### Tables and granules -/

namespace SideTable

variable {t : SideTable} {e : Extent}

/-- Addresses a granule apart have entries of their own. -/
theorem Beside.index_ne {width : EntryWidth} (beside : t.Beside e width 4) {a b : Address}
    (above : e.start.toNat ≤ a.toNat) (above' : e.start.toNat ≤ b.toNat)
    (far : a.toNat + 16 ≤ b.toNat ∨ b.toNat + 16 ≤ a.toNat) : t.index a ≠ t.index b := by
  rw [beside.index_eq (k := 4) rfl (by decide) above, beside.index_eq (k := 4) rfl (by decide) above']
  omega

end SideTable

/-! ### What each space notes -/

/-- The forwarding table covers the space, and only objects of an evacuated space are claimed or have
copies; where nothing is noted, no copy is. -/
structure CopySpace.Tracked (x : CopySpace) (id : SpaceId) (pieces : List Piece) : Prop where
  states : x.forwarding.states.Beside x.pages.extent .byte 4
  copies : x.forwarding.copies.Beside x.pages.extent .word 4
  entries : ∀ a : Address, x.pages.extent.span.lo ≤ a.toNat → a.toNat < x.pages.extent.span.hi →
    x.forwarding.states.entryByte a = 0 ∨ x.evacuating = true ∧
      (x.forwarding.states.entryByte a = 2 ∨ x.forwarding.states.entryByte a = 3) ∧
      ∃ p ∈ pieces, p.home = id ∧ p.isObject = true ∧
        x.forwarding.states.index p.start = x.forwarding.states.index a
  blank : ∀ a : Address, x.pages.extent.span.lo ≤ a.toNat → a.toNat < x.pages.extent.span.hi →
    x.forwarding.states.entryByte a = 0 → x.forwarding.copies.entry a = 0

/-- The forwarding table covers the space, and nothing is noted in it. -/
structure CopySpace.Clean (x : CopySpace) : Prop where
  states : x.forwarding.states.Beside x.pages.extent .byte 4
  copies : x.forwarding.copies.Beside x.pages.extent .word 4
  unclaimed : ∀ a : Address, x.pages.extent.span.lo ≤ a.toNat → a.toNat < x.pages.extent.span.hi →
    x.forwarding.states.entryByte a = 0
  uncopied : ∀ a : Address, x.pages.extent.span.lo ≤ a.toNat → a.toNat < x.pages.extent.span.hi →
    x.forwarding.copies.entry a = 0

theorem CopySpace.Clean.tracked {x : CopySpace} (clean : x.Clean) (id : SpaceId) (pieces : List Piece) : x.Tracked id pieces :=
  ⟨clean.states, clean.copies, fun a low high => .inl (clean.unclaimed a low high), fun a low high _ => clean.uncopied a low high⟩

theorem CopySpace.Tracked.clean {x : CopySpace} {id : SpaceId} {pieces : List Piece} (tracked : x.Tracked id pieces)
    (unclaimed : ∀ a : Address, x.pages.extent.span.lo ≤ a.toNat → a.toNat < x.pages.extent.span.hi →
      x.forwarding.states.entryByte a = 0) : x.Clean :=
  ⟨tracked.states, tracked.copies, unclaimed, fun a low high => tracked.blank a low high (unclaimed a low high)⟩

/-- States and copies are kept in the same places. -/
theorem CopySpace.Tracked.index_eq {x : CopySpace} {id : SpaceId} {pieces : List Piece} {a : Address}
    (tracked : x.Tracked id pieces) (low : x.pages.extent.span.lo ≤ a.toNat) :
    x.forwarding.copies.index a = x.forwarding.states.index a := by
  rw [tracked.copies.index_eq (k := 4) rfl (by decide) low, tracked.states.index_eq (k := 4) rfl (by decide) low]

/-- Marks are kept at the starts of cells only, and old ones only until the store is swept. -/
structure MarkSweepSpace.Tracked (x : MarkSweepSpace) : Prop where
  table : x.marks.Beside x.pages.extent .byte 4
  current : x.current = 1 ∨ x.current = 2
  entries : ∀ a : Address, x.pages.extent.span.lo ≤ a.toNat → a.toNat < x.pages.extent.span.hi →
    x.marks.entryByte a = 0 ∨
      (x.marks.entryByte a = x.current ∨ x.region.prepared = true ∧ x.marks.entryByte a = 3 - x.current) ∧
      ∃ b ∈ x.blocks, ∃ k < b.count, ∃ cell : Address, cell.toNat = (b.cell k).lo ∧
        x.marks.index cell = x.marks.index a

/-- Only cells of objects are marked. -/
def MarkSweepSpace.Owned (x : MarkSweepSpace) (pieces : List Piece) : Prop :=
  ∀ a : Address, x.pages.extent.span.lo ≤ a.toNat → a.toNat < x.pages.extent.span.hi → x.marks.entryByte a = x.current →
    ∃ p ∈ pieces, p.home = .second ∧ p.isObject = true ∧ ∃ cell : Address, cell.toNat = p.span.lo ∧ x.marks.index cell = x.marks.index a

theorem MarkSweepSpace.Owned.mono {x : MarkSweepSpace} {pieces pieces' : List Piece} (owned : x.Owned pieces)
    (more : ∀ p ∈ pieces, p ∈ pieces') : x.Owned pieces' := fun a low high marked => by
  obtain ⟨p, member, rest⟩ := owned a low high marked
  exact ⟨p, more p member, rest⟩

structure ImmortalSpace.Tracked (x : ImmortalSpace) : Prop where
  table : x.marks.Beside x.pages.extent .byte 4
  current : x.current = 0 ∨ x.current = 1

/-- Every large object is on one of the lists, and its mark tells on which. -/
structure LargeSpace.Tracked (x : LargeSpace) (pieces : List Piece) : Prop where
  table : x.marks.Beside x.pages.extent .byte 12
  current : x.current = 0 ∨ x.current = 1
  fresh : ∀ o ∈ x.treadmill.fresh, x.marks.entryByte o = x.current ||| 2
  survivors : ∀ o ∈ x.treadmill.survivors, x.marks.entryByte o = x.current
  young : ∀ o ∈ x.treadmill.young,
    x.marks.entryByte o = (if x.youngOnly = true then x.current else 1 - x.current) ||| 2
  old : ∀ o ∈ x.treadmill.old, x.youngOnly = false ∧ x.marks.entryByte o = 1 - x.current
  listed : ∀ o, o ∈ x.treadmill.fresh ∨ o ∈ x.treadmill.survivors ∨ o ∈ x.treadmill.young ∨ o ∈ x.treadmill.old →
    ∃ p ∈ pieces, p.home = .large ∧ p.isObject = true ∧ p.start = o
  complete : ∀ p ∈ pieces, p.home = .large → p.isObject = true →
    p.start ∈ x.treadmill.fresh ∨ p.start ∈ x.treadmill.survivors ∨ p.start ∈ x.treadmill.young ∨
      p.start ∈ x.treadmill.old

namespace Spaces

/-- The notes of all spaces are in order. While the mature store is being collected, its marks are those of objects. -/
structure Tracked (s : Spaces) (pieces : List Piece) : Prop where
  copying : ∀ id x, s.space id = .copying x → x.Tracked id pieces
  mature : ∀ x, s.second = .mature x → x.Tracked
  owned : ∀ x, s.second = .mature x → x.region.prepared = true → x.Owned pieces
  immortal : s.immortal.Tracked
  large : s.large.Tracked pieces

/-- The space of the piece has noted that a collector reached it. -/
def Reached (s : Spaces) (p : Piece) : Prop :=
  match s.space p.home with
  | .copying x => x.forwarding.states.entryByte p.start = 3
  | .markSweep x => ∃ cell : Address, cell.toNat = p.span.lo ∧ x.marks.entryByte cell = x.current
  | .immortal x => x.marks.entryByte p.start = x.current
  | .large x => p.start ∈ x.treadmill.survivors

/-- A collector is about to copy the object of the piece. -/
def Claimed (s : Spaces) (p : Piece) : Prop :=
  match s.space p.home with
  | .copying x => x.forwarding.states.entryByte p.start = 2
  | _ => False

/-- Where the object of a piece is now: at its copy, or where it was. -/
def image (s : Spaces) (p : Piece) : Address :=
  match s.space p.home with
  | .copying x =>
    if x.forwarding.states.entryByte p.start = 3 then ⟨x.forwarding.copies.entry p.start⟩ else p.start
  | _ => p.start

/-- The collection moves the objects of the space. -/
def Evacuates (s : Spaces) (id : SpaceId) : Prop :=
  match s.space id with
  | .copying x => x.evacuating = true
  | _ => False

variable {s s' : Spaces} {m m' : Memory} {pieces : List Piece} {buffers : List (SpaceId × Span)}
  {keys : List (Nat × Address)} {p q : Piece}

/-- Only objects of an evacuated space move. -/
theorem Tracked.image_eq (tracked : s.Tracked pieces) (held : s.Held m pieces buffers keys) (member : p ∈ pieces)
    (stays : ¬ s.Evacuates p.home) : s.image p = p.start := by
  have inside := held.inside member
  unfold image
  unfold Evacuates at stays
  cases space : s.space p.home with
  | copying x =>
    simp only [space] at stays inside ⊢
    rcases (tracked.copying _ x space).entries p.start inside.1 inside.2 with clear | ⟨evacuating, -⟩
    · rw [if_neg (by rw [clear]; decide)]
    · exact absurd evacuating stays
  | markSweep x => rfl
  | immortal x => rfl
  | large x => rfl

/-- An object that was not reached is where it was. -/
theorem image_of_not_reached (missed : ¬ s.Reached p) : s.image p = p.start := by
  unfold image
  unfold Reached at missed
  cases space : s.space p.home with
  | copying x =>
    simp only [space] at missed ⊢
    rw [if_neg missed]
  | markSweep x => rfl
  | immortal x => rfl
  | large x => rfl

/-! ### Handing out memory changes no note -/

/-- The spaces have noted the same, and know at least the same cells. -/
theorem Restocked.space_cases (same : s.Restocked s') (id : SpaceId) :
    (∃ x p, s.space id = .copying x ∧ s'.space id = .copying { x with pages := p }) ∨
    (∃ x p starts classes available blocks, id = .second ∧ s.second = .mature x ∧ s.space id = .markSweep x ∧
      s'.space id = .markSweep { x with
        pages := p, blockStarts := starts, blockClasses := classes
        available := available, blocks := blocks } ∧ ∀ b ∈ x.blocks, b ∈ blocks) ∨
    (∃ x p, s.space id = .immortal x ∧ s'.space id = .immortal { x with pages := p }) ∨
    ∃ x p, s.space id = .large x ∧ s'.space id = .large { x with pages := p } := by
  cases id with
  | first =>
    obtain ⟨p, first⟩ := same.first
    exact .inl ⟨s.first, p, rfl, by simp only [space, first]⟩
  | second =>
    rcases same.second with ⟨x, p, starts, classes, available, blocks, second, second', more⟩ | ⟨x, p, second, second'⟩
    · refine .inr (.inl ⟨x, p, starts, classes, available, blocks, rfl, second, ?_, ?_, more⟩)
      · simp only [space, second]
      · simp only [space, second']
    · exact .inl ⟨x, p, by simp only [space, second], by simp only [space, second']⟩
  | immortal =>
    obtain ⟨p, immortal⟩ := same.immortal
    exact .inr (.inr (.inl ⟨s.immortal, p, rfl, by simp only [space, immortal]⟩))
  | large =>
    obtain ⟨p, large⟩ := same.large
    exact .inr (.inr (.inr ⟨s.large, p, rfl, by simp only [space, large]⟩))

theorem Restocked.reached (same : s.Restocked s') (p : Piece) : s'.Reached p ↔ s.Reached p := by
  unfold Reached
  rcases same.space_cases p.home with ⟨x, _, space, space'⟩ | ⟨x, _, _, _, _, _, _, _, space, space', _⟩ |
    ⟨x, _, space, space'⟩ | ⟨x, _, space, space'⟩
  · rw [space, space']
  · rw [space, space']
  · rw [space, space']
  · rw [space, space']

theorem Restocked.claimed (same : s.Restocked s') (p : Piece) : s'.Claimed p ↔ s.Claimed p := by
  unfold Claimed
  rcases same.space_cases p.home with ⟨x, _, space, space'⟩ | ⟨x, _, _, _, _, _, _, _, space, space', _⟩ |
    ⟨x, _, space, space'⟩ | ⟨x, _, space, space'⟩
  · rw [space, space']
  · rw [space, space']
  · rw [space, space']
  · rw [space, space']

theorem Restocked.image (same : s.Restocked s') (p : Piece) : s'.image p = s.image p := by
  unfold Spaces.image
  rcases same.space_cases p.home with ⟨x, _, space, space'⟩ | ⟨x, _, _, _, _, _, _, _, space, space', _⟩ |
    ⟨x, _, space, space'⟩ | ⟨x, _, space, space'⟩
  · rw [space, space']
  · rw [space, space']
  · rw [space, space']
  · rw [space, space']

theorem Restocked.evacuates (same : s.Restocked s') (id : SpaceId) : s'.Evacuates id ↔ s.Evacuates id := by
  unfold Evacuates
  rcases same.space_cases id with ⟨x, _, space, space'⟩ | ⟨x, _, _, _, _, _, _, _, space, space', _⟩ |
    ⟨x, _, space, space'⟩ | ⟨x, _, space, space'⟩
  · rw [space, space']
  · rw [space, space']
  · rw [space, space']
  · rw [space, space']

theorem Restocked.tracked (same : s.Restocked s') (tracked : s.Tracked pieces) : s'.Tracked pieces where
  copying id y space' := by
    have extent := same.extent id
    rcases same.space_cases id with ⟨x, p, space, found⟩ | ⟨x, _, _, _, _, _, _, _, _, found, _⟩ |
      ⟨x, _, _, found⟩ | ⟨x, _, _, found⟩
    · rw [space'] at found
      cases found
      rw [space, space'] at extent
      have old := tracked.copying id x space
      simp only [Space.extent] at extent
      exact ⟨by rw [extent]; exact old.states, by rw [extent]; exact old.copies, by rw [extent]; exact old.entries,
        by rw [extent]; exact old.blank⟩
    all_goals
      rw [space'] at found
      cases found
  mature y second' := by
    have extent := same.extent .second
    rcases same.second with ⟨x, p, starts, classes, available, blocks, second, found, more⟩ | ⟨x, p, _, found⟩
    · rw [second'] at found
      cases found
      simp only [space, second, second', Space.extent] at extent
      have old := tracked.mature x second
      refine ⟨by rw [extent]; exact old.table, old.current, fun a low high => ?_⟩
      rw [extent] at low high
      rcases old.entries a low high with clear | ⟨value, b, member, rest⟩
      · exact .inl clear
      · exact .inr ⟨value, b, more b member, rest⟩
    · rw [second'] at found
      cases found
  owned y second' prepared := by
    have extent := same.extent .second
    rcases same.second with ⟨x, p, starts, classes, available, blocks, second, found, more⟩ | ⟨x, p, _, found⟩
    · rw [second'] at found
      cases found
      simp only [space, second, second', Space.extent] at extent
      intro a low high
      rw [extent] at low high
      exact tracked.owned x second prepared a low high
    · rw [second'] at found
      cases found
  immortal := by
    have extent := same.extent .immortal
    obtain ⟨p, immortal⟩ := same.immortal
    simp only [space, immortal, Space.extent] at extent
    have old := tracked.immortal
    rw [immortal]
    exact ⟨by rw [extent]; exact old.table, old.current⟩
  large := by
    have extent := same.extent .large
    obtain ⟨p, large⟩ := same.large
    simp only [space, large, Space.extent] at extent
    have old := tracked.large
    rw [large]
    exact ⟨by rw [extent]; exact old.table, old.current, old.fresh, old.survivors, old.young, old.old, old.listed,
      old.complete⟩

/-- A piece that is no large object needs no note. -/
theorem Tracked.add (tracked : s.Tracked pieces) (bare : p.home = .large → p.isObject = false) :
    s.Tracked (p :: pieces) where
  copying id x space := by
    have old := tracked.copying id x space
    refine ⟨old.states, old.copies, fun a low high => ?_, old.blank⟩
    rcases old.entries a low high with clear | ⟨evacuating, value, q, member, rest⟩
    · exact .inl clear
    · exact .inr ⟨evacuating, value, q, mem_cons_of_mem _ member, rest⟩
  mature := tracked.mature
  owned x second prepared := (tracked.owned x second prepared).mono fun q => mem_cons_of_mem _
  immortal := tracked.immortal
  large := by
    have old := tracked.large
    refine ⟨old.table, old.current, old.fresh, old.survivors, old.young, old.old, fun o on => ?_, fun q member => ?_⟩
    · obtain ⟨q, member, rest⟩ := old.listed o on
      exact ⟨q, mem_cons_of_mem _ member, rest⟩
    · rcases mem_cons.mp member with rfl | member
      · intro home object
        rw [bare home] at object
        cases object
      · exact old.complete q member

end Spaces

/-! ### Spaces with the same memory -/

/-- The spaces have handed out the same memory, whatever they have noted about it. -/
def Space.Alike : Space → Space → Prop
  | .copying x, .copying y => y.pages = x.pages
  | .markSweep x, .markSweep y => y.pages = x.pages ∧ y.blockStarts = x.blockStarts ∧
    y.blockClasses = x.blockClasses ∧ y.available = x.available ∧ y.blocks = x.blocks
  | .immortal x, .immortal y => y.pages = x.pages
  | .large x, .large y => y.pages = x.pages
  | _, _ => False

namespace Spaces

variable {s s' : Spaces} {m : Memory} {pieces : List Piece} {buffers rooms : List (SpaceId × Span)}
  {keys : List (Nat × Address)}

private theorem alike_cases {x y : Space} (alike : x.Alike y) :
    (∃ a b, x = .copying a ∧ y = .copying b ∧ b.pages = a.pages) ∨
    (∃ a b, x = .markSweep a ∧ y = .markSweep b ∧ b.pages = a.pages ∧ b.blockStarts = a.blockStarts ∧
      b.blockClasses = a.blockClasses ∧ b.available = a.available ∧ b.blocks = a.blocks) ∨
    (∃ a b, x = .immortal a ∧ y = .immortal b ∧ b.pages = a.pages) ∨
    ∃ a b, x = .large a ∧ y = .large b ∧ b.pages = a.pages := by
  unfold Space.Alike at alike
  split at alike
  · exact .inl ⟨_, _, rfl, rfl, alike⟩
  · exact .inr (.inl ⟨_, _, rfl, rfl, alike⟩)
  · exact .inr (.inr (.inl ⟨_, _, rfl, rfl, alike⟩))
  · exact .inr (.inr (.inr ⟨_, _, rfl, rfl, alike⟩))
  · cases alike

theorem Alike.extent {x y : Space} (alike : x.Alike y) : y.extent = x.extent := by
  rcases alike_cases alike with ⟨a, b, rfl, rfl, pages⟩ | ⟨a, b, rfl, rfl, pages, -⟩ | ⟨a, b, rfl, rfl, pages⟩ |
    ⟨a, b, rfl, rfl, pages⟩
  all_goals
    simp only [Space.extent]
    rw [pages]

/-- Neither do the accounts depend on what the spaces have noted. -/
theorem Alike.excess (alike : ∀ id, (s.space id).Alike (s'.space id)) : s'.excess = s.excess := by
  have large : s'.large.pages = s.large.pages := alike .large
  have mature := alike .second
  unfold Spaces.excess
  rw [large]
  cases second : s.second <;> cases second' : s'.second <;> simp only [space, second, second', Space.Alike] at mature ⊢
  rw [MarkSweepSpace.excess, MarkSweepSpace.excess, mature.1, mature.2.2.2.2]

/-- Who holds what does not depend on what the spaces have noted. -/
theorem Estate.alike (estate : s.Estate m rooms buffers keys) (alike : ∀ id, (s.space id).Alike (s'.space id)) :
    s'.Estate m rooms buffers keys := by
  obtain ⟨laid, supplied, gridded, lists, stocked, owned⟩ := estate
  have extent : ∀ id, (s'.space id).extent = (s.space id).extent := fun id => Alike.extent (alike id)
  have houses : ∀ id r, s.Houses id r → s'.Houses id r := by
    intro id r housed
    unfold Houses at *
    rcases alike_cases (alike id) with ⟨a, b, one, two, pages⟩ | ⟨a, b, one, two, pages, -, -, -, blocks⟩ |
      ⟨a, b, one, two, pages⟩ | ⟨a, b, one, two, pages⟩
    · simp only [one, two, pages] at housed ⊢
      exact housed
    · simp only [one, two] at housed ⊢
      obtain ⟨sizeClass, c, member, rest⟩ := housed
      exact ⟨sizeClass, c, blocks ▸ member, rest⟩
    · simp only [one, two, pages] at housed ⊢
      exact housed
    · simp only [one, two, pages] at housed ⊢
      exact housed
  have mature : ∀ y, s'.second = .mature y → ∃ x, s.second = .mature x ∧ y.pages = x.pages ∧
      y.blockStarts = x.blockStarts ∧ y.blockClasses = x.blockClasses ∧ y.available = x.available ∧
      y.blocks = x.blocks := by
    intro y second'
    have here := alike .second
    cases second : s.second with
    | mature x =>
      simp only [space, second, second', Space.Alike] at here
      exact ⟨x, rfl, here⟩
    | twin x =>
      simp only [space, second, second', Space.Alike] at here
  have mature' : ∀ x, s.second = .mature x → ∃ y, s'.second = .mature y ∧ y.available = x.available ∧
      y.blocks = x.blocks := by
    intro x second
    have here := alike .second
    cases second' : s'.second with
    | mature y =>
      simp only [space, second, second', Space.Alike] at here
      exact ⟨y, rfl, here.2.2.2.1, here.2.2.2.2⟩
    | twin y =>
      simp only [space, second, second', Space.Alike] at here
  refine ⟨⟨fun id => ?_, fun id id' other => ?_, fun id other => ?_⟩, fun id => ?_, fun y second' => ?_, lists, ?_, ?_⟩
  · rw [extent id]
    exact laid.placed id
  · rw [extent id, extent id']
    exact laid.apart id id' other
  · rw [extent id]
    exact laid.positive id other
  · have sound := supplied id
    unfold Sourced at *
    rcases alike_cases (alike id) with ⟨a, b, one, two, pages⟩ | ⟨a, b, one, two, pages, -⟩ |
      ⟨a, b, one, two, pages⟩ | ⟨a, b, one, two, pages⟩
    all_goals
      simp only [one, two, pages] at sound ⊢
      exact sound
  · obtain ⟨x, second, pages, starts, classes, available, blocks⟩ := mature y second'
    have old := gridded x second
    refine ⟨?_, ?_, ?_, ?_, ?_, ?_, ?_⟩
    · rw [blocks]
      exact old.classes
    · rw [blocks, pages]
      exact old.live
    · rw [blocks]
      exact old.distinct
    · rw [blocks, starts, classes]
      exact old.tables
    · rw [starts, pages]
      exact old.starts
    · rw [classes, pages]
      exact old.classNumbers
    · rw [available]
      exact old.heads
  · refine stocked.carry laid gridded (fun id bumpable => ?_) houses (fun l cuts => cuts.imp fun x second => ?_) fun _ _ _ => .refl _ _
    · unfold Bumpable at *
      rcases alike_cases (alike id) with ⟨a, b, one, two, -⟩ | ⟨a, b, one, two, -⟩ | ⟨a, b, one, two, -⟩ |
        ⟨a, b, one, two, -⟩
      all_goals
        simp only [one, two] at bumpable ⊢
    · obtain ⟨y, second', -, blocks⟩ := mature' x second
      exact ⟨y, second', fun _ listed _ => blocks ▸ listed⟩
  · have stock : s'.stock = s.stock := by
      unfold Spaces.stock
      cases second : s.second with
      | mature x =>
        obtain ⟨y, second', available, -⟩ := mature' x second
        rw [second']
        simp only [available]
      | twin x =>
        cases second' : s'.second with
        | mature y =>
          obtain ⟨x', other, -⟩ := mature y second'
          rw [second] at other
          cases other
        | twin y => rfl
    rw [stock]
    exact owned

theorem Held.alike (held : s.Held m pieces buffers keys) (alike : ∀ id, (s.space id).Alike (s'.space id)) :
    s'.Held m pieces buffers keys :=
  ⟨held.estate.alike alike, held.placed⟩

end Spaces

end TracingHeap

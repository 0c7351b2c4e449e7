import TracingHeap.Proofs.Accounts
import TracingHeap.Proofs.Blocks
import TracingHeap.Proofs.Requests

/-! How allocators serve requests. Each kind takes from the memory at hand, or gets more from its space;
either way the answer is memory that is zero, aligned as asked, and held by no one else. -/

namespace TracingHeap

open List Memory

/-! ### What serving a request changes -/

namespace Spaces

/-- The spaces differ in nothing that tracing looks at: memory was handed out, and blocks were added. -/
structure Restocked (s s' : Spaces) : Prop where
  first : ∃ p, s'.first = { s.first with pages := p }
  second : (∃ x p starts classes available blocks, s.second = .mature x ∧
      s'.second = .mature { x with
        pages := p, blockStarts := starts, blockClasses := classes
        available := available, blocks := blocks } ∧ ∀ b ∈ x.blocks, b ∈ blocks) ∨
    ∃ x p, s.second = .twin x ∧ s'.second = .twin { x with pages := p }
  immortal : ∃ p, s'.immortal = { s.immortal with pages := p }
  large : ∃ p, s'.large = { s.large with pages := p }
  extent : ∀ id, (s'.space id).extent = (s.space id).extent

variable {s s' s'' : Spaces}

theorem Repaged.restocked (same : s.Repaged s') : s.Restocked s' where
  first := same.first
  second := by
    rcases same.second with ⟨x, p, second, second'⟩ | other
    · exact .inl ⟨x, p, x.blockStarts, x.blockClasses, x.available, x.blocks, second, second', fun _ => id⟩
    · exact .inr other
  immortal := same.immortal
  large := same.large
  extent := same.extent

theorem Restocked.refl (s : Spaces) : s.Restocked s := (Repaged.refl s).restocked

theorem Restocked.trans (one : s.Restocked s') (two : s'.Restocked s'') : s.Restocked s'' where
  first := by
    obtain ⟨p, same⟩ := one.first
    obtain ⟨q, same'⟩ := two.first
    exact ⟨q, by rw [same', same]⟩
  second := by
    rcases one.second with ⟨x, p, starts, classes, available, blocks, second, second', more⟩ | ⟨x, p, second, second'⟩
    · rcases two.second with ⟨y, q, starts', classes', available', blocks', third, third', more'⟩ | ⟨y, q, third, _⟩
      · rw [second'] at third
        cases third
        exact .inl ⟨x, q, starts', classes', available', blocks', second, third', fun b member => more' b (more b member)⟩
      · rw [second'] at third
        cases third
    · rcases two.second with ⟨y, q, _, _, _, _, third, _, _⟩ | ⟨y, q, third, third'⟩
      · rw [second'] at third
        cases third
      · rw [second'] at third
        cases third
        exact .inr ⟨x, q, second, third'⟩
  immortal := by
    obtain ⟨p, same⟩ := one.immortal
    obtain ⟨q, same'⟩ := two.immortal
    exact ⟨q, by rw [same', same]⟩
  large := by
    obtain ⟨p, same⟩ := one.large
    obtain ⟨q, same'⟩ := two.large
    exact ⟨q, by rw [same', same]⟩
  extent id := (two.extent id).trans (one.extent id)

theorem Restocked.bumpable (same : s.Restocked s') (id : SpaceId) : s'.Bumpable id ↔ s.Bumpable id := by
  unfold Bumpable
  cases id with
  | second =>
    rcases same.second with ⟨x, p, _, _, _, _, second, second', _⟩ | ⟨x, p, second, second'⟩
    · simp only [space, second, second']
    · simp only [space, second, second']
  | first => exact Iff.rfl
  | immortal => exact Iff.rfl
  | large => exact Iff.rfl

theorem Restocked.plan (same : s.Restocked s') : s'.plan = s.plan := by
  unfold Spaces.plan
  rcases same.second with ⟨x, p, _, _, _, _, second, second', _⟩ | ⟨x, p, second, second'⟩
  · rw [second, second']
  · rw [second, second']

/-- The mature store with other blocks and lists, but the same marks. -/
theorem restocked_mature {x : MarkSweepSpace} {starts classes : SideTable} {available : Array (List Address)}
    {blocks : List Block} (second : s.second = .mature x) (more : ∀ b ∈ x.blocks, b ∈ blocks) :
    s.Restocked { s with second := .mature { x with
      blockStarts := starts, blockClasses := classes, available := available, blocks := blocks } } where
  first := ⟨_, rfl⟩
  second := .inl ⟨x, x.pages, starts, classes, available, blocks, second, rfl, more⟩
  immortal := ⟨_, rfl⟩
  large := ⟨_, rfl⟩
  extent id := by
    cases id with
    | second => simp only [space, second, Space.extent]
    | first => rfl
    | immortal => rfl
    | large => rfl

end Spaces

namespace Heap

/-- The heaps differ in nothing but what serving a request may change. -/
structure Provided (h h' : Heap) : Prop where
  served : Served h h'
  restocked : h.spaces.Restocked h'.spaces
  level : h'.spaces.excess = h.spaces.excess

theorem Provided.trans {h h' h'' : Heap} (one : Provided h h') (two : Provided h' h'') : Provided h h'' :=
  ⟨one.served.trans two.served, one.restocked.trans two.restocked, two.level.trans one.level⟩

theorem provided_memory (h : Heap) (memory : Memory) : Provided h { h with memory } :=
  ⟨served_pages h h.spaces memory, .refl _, rfl⟩

end Heap

/-- A place in a room serves a request: it is aligned, and its bytes are zero. -/
structure Allotted (h : Heap) (r : Request) (a : Address) (room : Span) : Prop where
  aligns : r.Aligns a
  low : room.lo ≤ a.toNat
  near : a.toNat ≤ room.lo + 8
  high : a.toNat + r.size ≤ room.hi
  zero : h.memory.ZeroOn ⟨a.toNat, a.toNat + r.size⟩

variable {h h' : Heap} {r : Request} {rooms buffers : List (SpaceId × Span)} {keys : List (Nat × Address)}
  {answer : Option Address} {a : Address}

/-! ### Bump allocators -/

namespace BumpAllocator

variable {b b' : BumpAllocator} {m m' : Memory} {s : Spaces}

theorem carve_ok (estate : s.Estate m rooms (b.buffer ++ buffers) keys)
    (ok : carve r (b, m) = .ok answer (b', m')) :
    b'.space = b.space ∧ (answer = none → b' = b ∧ m' = m) ∧
      ∀ a, answer = some a → r.Aligns a ∧ m'.ZeroOn ⟨a.toNat, a.toNat + r.size⟩ ∧
        s.Estate m' ((b.space, ⟨a.toNat, a.toNat + r.size⟩) :: rooms) (b'.buffer ++ buffers) keys ∧
        ∀ q ∈ rooms, AgreeOn m m' q.2 := by
  simp only [carve, Step.get_bind, Step.bind_ok, Step.lift_ok, Step.ite_step] at ok
  obtain ⟨start, _, ⟨placed, rfl⟩, stop, _, ⟨ended, rfl⟩, ok⟩ := ok
  split at ok
  · obtain ⟨rfl, same⟩ := Step.pure_ok.mp ok
    cases same
    exact ⟨rfl, fun _ => ⟨rfl, rfl⟩, fun _ other => by cases other⟩
  · rename_i enough
    simp only [Bool.or_eq_true, not_or, decide_eq_true_eq, Address.lt_iff] at enough
    obtain ⟨present, room⟩ := enough
    have present : b.cursor ≠ .null := fun null => present (Address.isNull_iff.mpr null)
    have positive := Address.toNat_pos.mpr present
    simp only [Step.modify_bind, Step.pure_ok, Prod.mk.injEq] at ok
    obtain ⟨rfl, rfl, rfl⟩ := ok
    have buffer : b.buffer = [(b.space, ⟨b.cursor.toNat, b.limit.toNat⟩)] := by
      rw [BumpAllocator.buffer, if_neg (mt Address.isNull_iff.mp present)]
    rw [buffer, singleton_append] at estate
    obtain ⟨lists, stocked, owned⟩ := estate.stocked
    have whole := (stocked.ready _ mem_cons_self).2.1.whole estate.laid estate.gridded
    simp only [Span.Whole] at whole
    obtain ⟨aligned, above, -, multiple, -⟩ := Padding.alignedStart_ok whole.1 placed
    obtain ⟨-, -, size⟩ := Address.above_ok ended
    have words := Padding.allocationSize_whole r.bytes
    have rest : BumpAllocator.buffer { b with cursor := stop } = [(b.space, ⟨stop.toNat, b.limit.toNat⟩)] := by
      have proper : stop ≠ .null := Address.toNat_pos.mp (by omega)
      rw [BumpAllocator.buffer, if_neg (mt Address.isNull_iff.mp proper)]
    have carved := @Spaces.Estate.carve _ _ _ _ _ _ _ _ ⟨start.toNat, stop.toNat⟩ ⟨stop.toNat, b.limit.toNat⟩
      estate rfl above rfl (by simp only [Span.Whole]; omega) (by simp only; omega)
      (Memory.fillGap_agree m b.cursor start whole.1 aligned)
    rw [size] at carved
    refine ⟨rfl, fun other => (by cases other), fun _ same => ?_⟩
    cases same
    rw [rest, singleton_append, size]
    exact ⟨⟨aligned, multiple⟩, carved.2.1, carved.1, carved.2.2⟩

theorem refill_ok {more : Bool} (bumpable : h.spaces.Bumpable b.space)
    (estate : h.spaces.Estate h.memory rooms (b.buffer ++ buffers) keys)
    (ok : refill r (b, h) = .ok more (b', h')) :
    b'.space = b.space ∧ (h.Provided h' ∧ h.spaces.AgreeBut h'.spaces b.space) ∧
      h'.spaces.Estate h'.memory rooms (b'.buffer ++ buffers) keys ∧ ∀ q ∈ rooms, AgreeOn h.memory h'.memory q.2 := by
  simp only [refill, Step.bind_ok, Step.get_bind, Step.lift_ok, Step.on_ok, Focus.snd] at ok
  obtain ⟨room, _, ⟨-, rfl⟩, start, _, ⟨h₁, acquired, rfl⟩, ok⟩ := ok
  have got := Heap.acquire_ok estate.laid estate.supplied acquired
  have plain : b.space ≠ .second ∨ h.spaces.plan = .semispace := by
    rcases Spaces.bumpable_iff.mp bumpable with first | immortal | ⟨-, semispace⟩
    · exact .inl (first ▸ SpaceId.noConfusion)
    · exact .inl (immortal ▸ SpaceId.noConfusion)
    · exact .inr semispace
  have other : b.space ≠ .large := by
    intro large
    rw [Spaces.Bumpable, large] at bumpable
    exact bumpable
  have provided : h.Provided h₁ ∧ h.spaces.AgreeBut h₁.spaces b.space := ⟨⟨got.served, got.granted.repaged.restocked,
    Heap.acquire_excess estate.laid estate.supplied acquired (.inr plain)⟩, Heap.acquire_elsewhere acquired⟩
  cases start with
  | none =>
    obtain ⟨-, same⟩ := Step.pure_ok.mp ok
    cases same
    have same := (got.granted.refused _ rfl).1
    refine ⟨rfl, provided, estate.refused got.granted, fun q _ => ?_⟩
    rw [same]
    exact .refl _ _
  | some start =>
    simp only [Step.modify_bind, Step.bind_ok, Step.lift_ok, Step.pure_ok, Prod.mk.injEq] at ok
    obtain ⟨limit, _, ⟨ended, rfl⟩, -, rfl, rfl⟩ := ok
    obtain ⟨-, -, stop⟩ := Address.above_ok ended
    have dropped : h.spaces.Estate h.memory rooms buffers keys := by
      by_cases null : b.cursor.isNull = true
      · rwa [BumpAllocator.buffer, if_pos null, nil_append] at estate
      · rw [BumpAllocator.buffer, if_neg null, singleton_append] at estate
        exact estate.drop_buffer
    have words : ((max room h.settings.bumpChunkSize).alignUp Padding.minObjectBytes).toNat % 8 = 0 := by
      have power : Padding.minObjectBytes.toNat = 2 ^ 4 := rfl
      by_cases fits : (max room h.settings.bumpChunkSize).toNat + (2 ^ 4 - 1) < 2 ^ 64
      · rw [Word.toNat_alignUp power fits]
        omega
      · rw [Word.toNat_alignUp_wrap power (by omega)]
    obtain ⟨estate', agree⟩ := dropped.add_buffer bumpable got.granted words
    have proper : start ≠ .null := by
      have within := got.granted.supplied.issued_within (got.granted.served start rfl).issued
      have positive := estate'.laid.positive b.space other
      simp only [Span.Within, Span.ofBytes, Extent.span] at within
      exact Address.toNat_pos.mp (by omega)
    have buffer : BumpAllocator.buffer ⟨b.space, start, limit⟩ =
        [(b.space, .ofBytes start ((max room h.settings.bumpChunkSize).alignUp Padding.minObjectBytes))] := by
      rw [BumpAllocator.buffer, if_neg (mt Address.isNull_iff.mp proper), Span.ofBytes, stop]
    refine ⟨rfl, provided, ?_, agree⟩
    rw [buffer, singleton_append]
    exact estate'

theorem carveInHeap_ok (ok : carveInHeap r (b, h) = .ok answer (b', h')) :
    ∃ m, carve r (b, h.memory) = .ok answer (b', m) ∧ h' = { h with memory := m } := by
  simp only [carveInHeap, Step.onBoth_ok, Focus.comp, Focus.fst, Focus.snd, Heap.memoryPart, Prod.mk.injEq] at ok
  obtain ⟨_, m, carved, rfl, rfl⟩ := ok
  exact ⟨m, carved, rfl⟩

/-- What a bump allocator answers, whether or not it had to take new memory. -/
theorem alloc_ok (bumpable : h.spaces.Bumpable b.space)
    (estate : h.spaces.Estate h.memory rooms (b.buffer ++ buffers) keys)
    (ok : alloc r (b, h) = .ok answer (b', h')) :
    b'.space = b.space ∧ (h.Provided h' ∧ h.spaces.AgreeBut h'.spaces b.space) ∧ (∀ q ∈ rooms, AgreeOn h.memory h'.memory q.2) ∧
      (answer = none → h'.spaces.Estate h'.memory rooms (b'.buffer ++ buffers) keys) ∧
      ∀ a, answer = some a → ∃ room, Allotted h' r a room ∧
        h'.spaces.Estate h'.memory ((b.space, room) :: rooms) (b'.buffer ++ buffers) keys := by
  obtain ⟨first, ⟨b₁, h₁⟩, tried, ok⟩ := Step.bind_ok.mp ok
  obtain ⟨m₁, carved, rfl⟩ := carveInHeap_ok tried
  obtain ⟨space₁, none₁, some₁⟩ := carve_ok estate carved
  cases first with
  | some start =>
    simp only [Step.pure_ok, Prod.mk.injEq] at ok
    obtain ⟨rfl, rfl, rfl⟩ := ok
    obtain ⟨aligns, zero, estate', agree⟩ := some₁ start rfl
    refine ⟨space₁, ⟨h.provided_memory m₁, fun _ _ => rfl⟩, agree, fun other => (by cases other), fun _ same => ?_⟩
    cases same
    exact ⟨_, ⟨aligns, Nat.le_refl _, Nat.le_add_right .., Nat.le_refl _, zero⟩, estate'⟩
  | none =>
    obtain ⟨rfl, rfl⟩ := none₁ rfl
    simp only [allocFresh, Step.bind_ok] at ok
    obtain ⟨more, ⟨b₂, h₂⟩, refilled, ok⟩ := ok
    obtain ⟨space₂, ⟨provided, elsewhere⟩, estate₂, agree₂⟩ := refill_ok bumpable estate refilled
    rw [Step.ite_step] at ok
    split at ok
    · obtain ⟨m₃, carved', rfl⟩ := carveInHeap_ok ok
      obtain ⟨space₃, none₃, some₃⟩ := carve_ok estate₂ carved'
      refine ⟨space₃.trans space₂, ⟨provided.trans (h₂.provided_memory m₃), elsewhere⟩, ?_, ?_, ?_⟩
      · intro q member
        cases answer with
        | none =>
          obtain ⟨rfl, rfl⟩ := none₃ rfl
          exact agree₂ q member
        | some start => exact (agree₂ q member).trans ((some₃ start rfl).2.2.2 q member)
      · intro same
        obtain ⟨rfl, rfl⟩ := none₃ same
        exact estate₂
      · intro start same
        obtain ⟨aligns, zero, estate', -⟩ := some₃ start same
        refine ⟨⟨start.toNat, start.toNat + r.size⟩, ⟨aligns, Nat.le_refl _, Nat.le_add_right .., Nat.le_refl _, zero⟩, ?_⟩
        rw [← space₂]
        exact estate'
    · obtain ⟨rfl, same⟩ := Step.pure_ok.mp ok
      cases same
      exact ⟨space₂, ⟨provided, elsewhere⟩, agree₂, fun _ => estate₂, fun _ other => by cases other⟩

end BumpAllocator

/-! ### Cell allocators -/

/-- An item at an index can be put in front of the others, and so can one that replaces it. -/
theorem perm_at {α β : Type} {items : List α} {k : Nat} (inside : k < items.length) (f : α → List β) (x : α) :
    items.flatMap f ~ f items[k] ++ (items.eraseIdx k).flatMap f ∧
      (items.set k x).flatMap f ~ f x ++ (items.eraseIdx k).flatMap f :=
  ⟨((getElem_cons_eraseIdx_perm inside).symm.flatMap_right f),
    ((set_perm_cons_eraseIdx inside x).flatMap_right f)⟩

namespace CellAllocator

variable {c c' : CellAllocator} {m m' : Memory} {s : Spaces} {sizeClass : Nat}

/-- The list of one class, and the lists of the others. -/
theorem keys_perm (known : sizeClass < c.heads.size) (next : Address) :
    ∃ rest, c.keys ~ (sizeClass, c.head sizeClass) :: rest ∧
      CellAllocator.keys ⟨c.heads.setIfInBounds sizeClass next⟩ ~ (sizeClass, next) :: rest := by
  have inside : sizeClass < (c.heads.toList.mapIdx Prod.mk).length := by simpa using known
  refine ⟨(c.heads.toList.mapIdx Prod.mk).eraseIdx sizeClass, ?_, ?_⟩
  · have front := (getElem_cons_eraseIdx_perm inside).symm
    simp only [getElem_mapIdx, Array.getElem_toList] at front
    simpa only [CellAllocator.keys, head, Array.getElem?_eq_getElem known, Option.getD_some] using front
  · have front := set_perm_cons_eraseIdx inside (sizeClass, next)
    simpa only [CellAllocator.keys, Array.toList_setIfInBounds, mapIdx_set] using front

theorem classOf_ok (ok : classOf h r = .ok sizeClass) :
    sizeClass < 19 ∧ ∃ room, r.room = .ok room ∧ room.toNat ≤ SizeClass.bytesOf sizeClass := by
  simp only [classOf, except_bind_ok] at ok
  obtain ⟨room, padded, ok⟩ := ok
  cases found : SizeClass.classFor? room with
  | none =>
    rw [found] at ok
    cases ok
  | some c =>
    rw [found] at ok
    have same := except_pure_ok.mp ok
    subst same
    obtain ⟨bound, enough, -⟩ := Array.findIdx?_eq_some_iff_getElem.mp found
    refine ⟨bound, room, padded, ?_⟩
    rw [SizeClass.bytesOf, SizeClass.sizeOf?, Array.getElem?_eq_getElem bound]
    exact UInt64.le_iff_toNat_le.mp (of_decide_eq_true enough)

/-- A free cell is taken off its list and made zero. -/
theorem pop_ok (known : sizeClass < 19) (heads : c.heads.size = 19)
    (room : ∃ room, r.room = .ok room ∧ room.toNat ≤ SizeClass.bytesOf sizeClass)
    (present : c.head sizeClass ≠ .null) (estate : s.Estate m rooms buffers (c.keys ++ keys))
    (ok : pop r sizeClass (c, m) = .ok a (c', m')) :
    c'.heads.size = 19 ∧ r.Aligns a ∧ m'.ZeroOn ⟨a.toNat, a.toNat + r.size⟩ ∧
      (∀ q ∈ rooms, AgreeOn m m' q.2) ∧ ∃ room : Span, (room.lo ≤ a.toNat ∧ a.toNat ≤ room.lo + 8 ∧ a.toNat + r.size ≤ room.hi) ∧
        s.Estate m' ((.second, room) :: rooms) buffers (c'.keys ++ keys) := by
  simp only [pop, Step.get_bind, Step.modify_bind, Step.on_ok, Focus.snd, Prod.mk.injEq] at ok
  obtain ⟨m₁, placed, rfl, rfl⟩ := ok
  obtain ⟨rest, split, split'⟩ := @keys_perm c sizeClass (by omega) ⟨m.load (c.head sizeClass)⟩
  obtain ⟨least, -, words⟩ := SizeClass.bytesOf_facts known
  have front : s.Estate m rooms buffers ((sizeClass, c.head sizeClass) :: (rest ++ keys)) :=
    estate.of_perm (.refl _) (.refl _) ((split.append_right keys).symm)
  have aligned : (c.head sizeClass).toNat % 8 = 0 := by
    obtain ⟨lists, stocked, owned⟩ := front.stocked
    obtain ⟨l, others, split, key, -⟩ := Spaces.pick_list owned
    obtain ⟨chain, cuts⟩ := (stocked.of_lists split.symm).free l mem_cons_self
    obtain ⟨class', head', list⟩ := l
    simp only [FreeList.key, Prod.mk.injEq] at key chain
    obtain ⟨rfl, rfl⟩ := key
    cases list with
    | nil => exact absurd chain present
    | cons cell list =>
      obtain ⟨same, -, -⟩ := chain
      obtain ⟨x, second, grid⟩ := cuts.cell (mem_cons_self : cell ∈ cell :: list)
      have placed := front.laid.placed .second
      simp only [Spaces.space, second] at placed
      have whole := (Spaces.cell_whole (front.gridded x second) placed grid).1.1
      rw [same]
      exact whole
  obtain ⟨started, gap⟩ := Padding.align_ok aligned placed
  obtain ⟨start_aligned, above, near, multiple, cases⟩ := Padding.alignedStart_ok aligned started
  have slack := Padding.slack_le r.align
  obtain ⟨room, padded, enough⟩ := room
  have total := Padding.maxAlignedSize_ok padded cases
  have size_eq : ((SizeClass.sizeOf? sizeClass).getD 0).toNat = SizeClass.bytesOf sizeClass := rfl
  have zeroed := zero_agree m (c.head sizeClass) ((SizeClass.sizeOf? sizeClass).getD 0) (by omega) aligned
  have zero := zero_zeroOn m (c.head sizeClass) ((SizeClass.sizeOf? sizeClass).getD 0) (by omega) aligned (by omega)
  rw [Span.ofBytes, size_eq] at zeroed zero
  have inner : (Padding.allocationSize r.bytes).toNat = r.size := rfl
  have agree : AgreeOff m m₁ ⟨(c.head sizeClass).toNat, (c.head sizeClass).toNat + SizeClass.bytesOf sizeClass⟩ := by
    apply zeroed.trans
    apply gap.mono
    simp only [Span.Within]
    omega
  obtain ⟨popped, kept⟩ := front.pop present agree
  refine ⟨by simpa using heads, ⟨start_aligned, multiple⟩, ?_, kept,
    ⟨(c.head sizeClass).toNat, (c.head sizeClass).toNat + SizeClass.bytesOf sizeClass⟩, ⟨above, ?_, ?_⟩,
    popped.of_perm (.refl _) (.refl _) ?_⟩
  · refine (zero.mono ?_).of_agree (gap.agreeOn (.inl (Nat.le_refl _)))
    simp only [Span.Within]
    omega
  · simp only
    omega
  · simp only
    omega
  · rw [load_eq] at split' ⊢
    exact split'.append_right keys

theorem popInHeap_ok (ok : popInHeap r sizeClass (c, h) = .ok a (c', h')) :
    ∃ m, pop r sizeClass (c, h.memory) = .ok a (c', m) ∧ h' = { h with memory := m } := by
  simp only [popInHeap, Step.onBoth_ok, Focus.comp, Focus.fst, Focus.snd, Heap.memoryPart, Prod.mk.injEq] at ok
  obtain ⟨_, m, popped, rfl, rfl⟩ := ok
  exact ⟨m, popped, rfl⟩

end CellAllocator

/-- Free cells come from a used block, or from a fresh one. -/
theorem Heap.acquireCells_ok {sizeClass : Nat} (estate : h.spaces.Estate h.memory rooms buffers keys)
    (ok : acquireCells sizeClass h = .ok answer h') :
    (h.Provided h' ∧ h.spaces.AgreeBut h'.spaces .second) ∧ (∀ q ∈ rooms, AgreeOn h.memory h'.memory q.2) ∧
      (answer = none → h'.spaces.Estate h'.memory rooms buffers keys) ∧
      ∀ a, answer = some a → a ≠ .null ∧ h'.spaces.Estate h'.memory rooms buffers ((sizeClass, a) :: keys) := by
  obtain ⟨found, h₁, looked, ok⟩ := Step.bind_ok.mp ok
  simp only [onMature_ok, Step.on_ok, Focus.fst, Prod.mk.injEq] at looked
  obtain ⟨x, _, _, second, ⟨y, taken, rfl, rfl⟩, rfl⟩ := looked
  obtain ⟨⟨available, same⟩, kept, -⟩ := Spaces.takeAvailable_ok taken
  have restocked : h.spaces.Restocked { h.spaces with second := .mature y } := by
    rw [same]
    exact @Spaces.restocked_mature _ _ x.blockStarts x.blockClasses _ _ second fun _ => id
  have level : Spaces.excess { h.spaces with second := .mature y } = h.spaces.excess := by
    rw [same]
    simp only [Spaces.excess, second, MarkSweepSpace.excess]
  have provided : h.Provided { h with spaces := { h.spaces with second := .mature y } } :=
    ⟨h.served_pages _ h.memory, restocked, level⟩
  have elsewhere₁ : h.spaces.AgreeBut { h.spaces with second := .mature y } .second := by
    intro id other
    cases id <;> first | rfl | exact absurd rfl other
  cases found with
  | some head =>
    obtain ⟨rfl, rfl⟩ := Step.pure_ok.mp ok
    obtain ⟨estate', present⟩ := estate.take_available second taken
    refine ⟨⟨provided, elsewhere₁⟩, fun q _ => .refl _ _, fun other => (by cases other), fun _ same => ?_⟩
    cases same
    exact ⟨present, estate'⟩
  | none =>
    have same := kept rfl
    subst same
    have estate₁ : Spaces.Estate { h.spaces with second := .mature y } h.memory rooms buffers keys := by
      have unchanged : { h.spaces with second := .mature y } = h.spaces := by rw [← second]
      rwa [unchanged]
    obtain ⟨start, h₂, acquired, ok⟩ := Step.bind_ok.mp ok
    have got := acquire_ok estate₁.laid estate₁.supplied acquired
    have elsewhere₂ := elsewhere₁.trans (acquire_elsewhere acquired)
    have large := elsewhere₂.large SpaceId.noConfusion
    have served₂ := provided.served.trans got.served
    have restocked₂ := provided.restocked.trans got.granted.repaged.restocked
    cases start with
    | none =>
      obtain ⟨rfl, rfl⟩ := Step.pure_ok.mp ok
      have same := (got.granted.refused _ rfl).1
      have level₂ := acquire_excess estate₁.laid estate₁.supplied acquired (.inl rfl)
      refine ⟨⟨⟨served₂, restocked₂, level₂.trans level⟩, elsewhere₂⟩, fun q _ => ?_, fun _ => estate₁.refused got.granted, fun _ other => by cases other⟩
      rw [same]
      exact .refl _ _
    | some start =>
      obtain ⟨_, h₃, installed, ok⟩ := Step.bind_ok.mp ok
      obtain ⟨rfl, rfl⟩ := Step.pure_ok.mp ok
      obtain ⟨y₂, z, m₃, second₂, cut, rfl⟩ := onMature_ok.mp installed
      obtain ⟨estate', present, agree⟩ := estate₁.install got.granted second₂ cut
      have grid := (got.granted.gridded estate₁.gridded) y₂ second₂
      obtain ⟨_, starts, classes, -, -, rfl, -, -⟩ :=
        MarkSweepSpace.install_ok grid.starts.wide grid.classNumbers.wide cut
      -- The block is entered, and its pages were counted when it was taken.
      obtain ⟨p, third, reserved⟩ := acquire_block estate₁.laid estate₁.supplied acquired rfl
      obtain rfl : y₂ = { y with pages := p } := by
        rw [second₂] at third
        injection third
      have level₂ : Spaces.excess { h₂.spaces with second := .mature { y with
          pages := p, blockStarts := starts, blockClasses := classes, blocks := y.blocks ++ [⟨start, sizeClass⟩] } } =
          h.spaces.excess := by
        have number : UInt64.ofNat (16 * 1) = 16 := rfl
        simp only [Spaces.excess, second, large, MarkSweepSpace.excess, reserved, length_append, length_singleton, Nat.mul_add,
          UInt64.ofNat_add, number, Prod.mk.injEq, true_and]
        grind
      refine ⟨⟨⟨served₂.trans (h₂.served_pages _ m₃), restocked₂.trans
        (Spaces.restocked_mature second₂ fun b member => mem_append_left _ member), level₂⟩, elsewhere₂.trans fun id other => ?_⟩, agree,
        fun other => (by cases other), fun _ same => ?_⟩
      · cases id <;> first | rfl | exact absurd rfl other
      · cases same
        exact ⟨present, estate'⟩

namespace CellAllocator

variable {c c' : CellAllocator}

/-- What a cell allocator answers, whether or not it had to take new cells. -/
theorem alloc_ok (heads : c.heads.size = 19) (estate : h.spaces.Estate h.memory rooms buffers (c.keys ++ keys))
    (ok : alloc r (c, h) = .ok answer (c', h')) :
    c'.heads.size = 19 ∧ (h.Provided h' ∧ h.spaces.AgreeBut h'.spaces .second) ∧ (∀ q ∈ rooms, AgreeOn h.memory h'.memory q.2) ∧
      (answer = none → h'.spaces.Estate h'.memory rooms buffers (c'.keys ++ keys)) ∧
      ∀ a, answer = some a → ∃ room, Allotted h' r a room ∧
        h'.spaces.Estate h'.memory ((.second, room) :: rooms) buffers (c'.keys ++ keys) := by
  simp only [alloc, Step.get_bind, Step.bind_ok, Step.lift_ok, Step.ite_step] at ok
  obtain ⟨sizeClass, _, ⟨classed, rfl⟩, ok⟩ := ok
  obtain ⟨known, room⟩ := classOf_ok classed
  split at ok
  · rename_i null
    have null := Address.isNull_iff.mp null
    simp only [allocFresh, Step.get_bind, Step.bind_ok, Step.lift_ok, Step.on_ok, Focus.snd] at ok
    obtain ⟨class', _, ⟨classed', rfl⟩, fresh, _, ⟨h₁, acquired, rfl⟩, ok⟩ := ok
    rw [classed] at classed'
    cases classed'
    obtain ⟨⟨provided, elsewhere⟩, agree, none₁, some₁⟩ := Heap.acquireCells_ok estate acquired
    cases fresh with
    | none =>
      obtain ⟨rfl, same⟩ := Step.pure_ok.mp ok
      cases same
      exact ⟨heads, ⟨provided, elsewhere⟩, agree, fun _ => none₁ rfl, fun _ other => by cases other⟩
    | some head =>
      obtain ⟨present, estate₁⟩ := some₁ head rfl
      simp only [Step.modify_bind, Step.bind_ok, Step.pure_ok] at ok
      obtain ⟨a, _, inHeap, rfl, rfl⟩ := ok
      obtain ⟨m₂, popped, rfl⟩ := popInHeap_ok inHeap
      obtain ⟨rest, split, split'⟩ := @keys_perm c sizeClass (by omega) head
      rw [null] at split
      have estate₂ : h₁.spaces.Estate h₁.memory rooms buffers
          (CellAllocator.keys ⟨c.heads.setIfInBounds sizeClass head⟩ ++ keys) := by
        have front : h₁.spaces.Estate h₁.memory rooms buffers
            ((sizeClass, .null) :: (sizeClass, head) :: (rest ++ keys)) :=
          estate₁.of_perm (.refl _) (.refl _) ((Perm.swap ..).trans ((split.append_right keys).symm.cons _))
        exact front.drop_key.of_perm (.refl _) (.refl _) (split'.append_right keys)
      have head_eq : CellAllocator.head ⟨c.heads.setIfInBounds sizeClass head⟩ sizeClass = head := by
        rw [CellAllocator.head, Array.getElem?_setIfInBounds_self_of_lt (by omega)]
        rfl
      obtain ⟨heads', aligns, zero, agree', span, ⟨low, near, high⟩, estate'⟩ :=
        pop_ok known (by simpa using heads) room (by rw [head_eq]; exact present) estate₂ popped
      refine ⟨heads', ⟨provided.trans (h₁.provided_memory m₂), elsewhere⟩, fun q member => (agree q member).trans (agree' q member),
        fun other => (by cases other), fun _ same => ?_⟩
      cases same
      exact ⟨span, ⟨aligns, low, near, high, zero⟩, estate'⟩
  · rename_i present
    have present := mt Address.isNull_iff.mpr present
    simp only [Step.bind_ok, Step.pure_ok] at ok
    obtain ⟨a, _, inHeap, rfl, rfl⟩ := ok
    obtain ⟨m₁, popped, rfl⟩ := popInHeap_ok inHeap
    obtain ⟨heads', aligns, zero, agree, span, ⟨low, near, high⟩, estate'⟩ := pop_ok known heads room present estate popped
    refine ⟨heads', ⟨h.provided_memory m₁, fun _ _ => rfl⟩, agree, fun other => (by cases other), fun _ same => ?_⟩
    cases same
    exact ⟨span, ⟨aligns, low, near, high, zero⟩, estate'⟩

end CellAllocator

/-! ### Large objects -/

/-- What a large object allocator answers: pages that no one else has. -/
theorem LargeAllocator.alloc_ok (estate : h.spaces.Estate h.memory rooms buffers keys)
    (ok : alloc r h = .ok answer h') :
    (h.Provided h' ∧ h.spaces.AgreeBut h'.spaces .large) ∧ (∀ q ∈ rooms, AgreeOn h.memory h'.memory q.2) ∧
      (answer = none → h'.spaces.Estate h'.memory rooms buffers keys ∧ (h.spaces.Occupied rooms → h'.spaces.Occupied rooms)) ∧
      ∀ a, answer = some a → 0 < r.size + Padding.slack r.align ∧ ∃ room, Allotted h' r a room ∧
        h'.spaces.Estate h'.memory ((.large, room) :: rooms) buffers keys ∧
        (h.spaces.Occupied rooms → h'.spaces.Occupied ((.large, room) :: rooms)) := by
  simp only [alloc, allocFresh, Step.bind_ok, Step.lift_ok] at ok
  obtain ⟨cell, h₁, ⟨bytes, _, ⟨padded, rfl⟩, pages, _, ⟨counted, rfl⟩, acquired⟩, ok⟩ := ok
  have got := Heap.acquire_ok estate.laid estate.supplied acquired
  have provided : h.Provided h₁ := ⟨got.served, got.granted.repaged.restocked,
    Heap.acquire_excess estate.laid estate.supplied acquired (.inr (.inl SpaceId.noConfusion))⟩
  have elsewhere := Heap.acquire_elsewhere acquired
  have extent : h₁.spaces.large.pages.extent = h.spaces.large.pages.extent := got.granted.repaged.extent .large
  cases cell with
  | none =>
    obtain ⟨rfl, rfl⟩ := Step.pure_ok.mp ok
    have same := (got.granted.refused _ rfl).1
    refine ⟨⟨provided, elsewhere⟩, fun q _ => ?_, fun _ => ⟨estate.refused got.granted, fun occupied run live => ?_⟩,
      fun _ other => by cases other⟩
    · rw [same]
      exact .refl _ _
    · rcases got.granted.large.1 with kept | ⟨_, _, answer, -⟩
      · rw [Pages.Runs.spanOf, extent]
        exact occupied run (kept ▸ live)
      · cases answer
  | some cell =>
    simp only [Step.bind_ok, Step.on_ok, Heap.memoryPart, Step.pure_ok] at ok
    obtain ⟨a, _, ⟨m₂, placed, rfl⟩, rfl, rfl⟩ := ok
    have count := Word.toNat_pagesUp counted
    have fits := Word.pagesUp_fits counted
    have total : (Word.ofPages pages).toNat = pages.toNat * 4096 := Word.toNat_ofPages (by omega)
    obtain ⟨estate₁, zero, agree₁⟩ := estate.add_large got.granted (by omega)
    have aligned := (got.granted.served cell rfl).aligned
    obtain ⟨started, gap⟩ := Padding.align_ok aligned placed
    obtain ⟨start_aligned, above, near, multiple, cases⟩ := Padding.alignedStart_ok aligned started
    have size := Padding.maxAlignedSize_ok padded cases
    have slack := Padding.slack_le r.align
    have inner : (Padding.allocationSize r.bytes).toNat = r.size := rfl
    obtain ⟨taken, live, runPages, runStart⟩ := got.granted.large.2 cell rfl rfl
    have positive : 0 < pages.toNat := by
      have proper := (got.granted.supplied .large).proper taken
        (mem_append_left _ (by rw [live]; exact mem_cons_self))
      have := proper.1
      omega
    have inside : AgreeOff h₁.memory m₂ (Span.ofBytes cell (Word.ofPages pages)) := by
      apply gap.mono
      simp only [Span.Within, Span.ofBytes]
      omega
    obtain ⟨estate₂, agree₂⟩ := estate₁.write inside
    refine ⟨⟨provided.trans (h₁.provided_memory m₂), elsewhere⟩, fun q member => (agree₁ q member).trans (agree₂ q member),
      fun other => (by cases other), fun _ same => ?_⟩
    cases same
    refine ⟨by omega, _, ⟨⟨start_aligned, multiple⟩, above, ?_, ?_, ?_⟩, estate₂, fun occupied run inside => ?_⟩
    · simp only [Span.ofBytes]
      omega
    · simp only [Span.ofBytes]
      omega
    · refine (zero.mono ?_).of_agree (gap.agreeOn (.inl (Nat.le_refl _)))
      simp only [Span.Within, Span.ofBytes]
      omega
    · have span (run : Pages.Run) : h₁.spaces.large.pages.spanOf run = h.spaces.large.pages.spanOf run := by
        rw [Pages.Runs.spanOf, extent, Pages.Runs.spanOf]
      rw [live] at inside
      rw [span]
      rcases mem_cons.mp inside with rfl | old
      · have room : h.spaces.large.pages.spanOf run = .ofBytes cell (Word.ofPages pages) := by
          simp only [Pages.Runs.spanOf] at runStart ⊢
          simp only [Span.ofBytes, Span.mk.injEq]
          omega
        exact room ▸ mem_cons_self
      · exact mem_cons_of_mem _ (occupied run old)

/-! ### Sets of allocators -/

namespace AllocatorSet

/-- The allocators of a set can serve: bump allocators belong to spaces they can cut, and every cell
allocator has a list for every class. -/
structure Formed (s : AllocatorSet) (spaces : Spaces) : Prop where
  bumps : ∀ b ∈ s.bumps, spaces.Bumpable b.space
  cells : ∀ c ∈ s.cells, c.heads.size = 19

/-- The allocators are bound to the same spaces. -/
structure BoundAlike (s s' : AllocatorSet) : Prop where
  bumps : s'.bumps.toList.map (·.space) = s.bumps.toList.map (·.space)
  cells : s'.cells.size = s.cells.size
  larges : s'.larges = s.larges

variable {s s' s'' : AllocatorSet} {selector : AllocatorSelector}

theorem BoundAlike.refl (s : AllocatorSet) : s.BoundAlike s := ⟨rfl, rfl, rfl⟩

theorem BoundAlike.trans (one : s.BoundAlike s') (two : s'.BoundAlike s'') : s.BoundAlike s'' :=
  ⟨two.bumps.trans one.bumps, two.cells.trans one.cells, two.larges.trans one.larges⟩

/-- Bump allocators of the same spaces have the same places in their sets. -/
theorem BoundAlike.bump_space (same : s.BoundAlike s') (k : Nat) :
    s'.bumps[k]?.map (·.space) = s.bumps[k]?.map (·.space) := by
  have here := congrArg (·[k]?) same.bumps
  simpa only [getElem?_map, Array.getElem?_toList] using here

theorem BoundAlike.spaceOf (same : s.BoundAlike s') {id : SpaceId} (found : s.spaceOf selector = .ok id) :
    s'.spaceOf selector = .ok id := by
  cases selector with
  | none => cases found
  | bump index =>
    have here := same.bump_space index.toNat
    unfold AllocatorSet.spaceOf at found ⊢
    cases bound : s.bumps[index.toNat]? with
    | none => simp only [bound, reduceCtorEq] at found
    | some b =>
      simp only [bound, Except.ok.injEq] at found
      cases bound' : s'.bumps[index.toNat]? with
      | none => simp [bound, bound'] at here
      | some b' =>
        rw [bound, bound'] at here
        simp only [Option.map_some, Option.some.injEq] at here
        simp only [bound', here, found]
  | cells index =>
    simp only [AllocatorSet.spaceOf, same.cells] at found ⊢
    exact found
  | large index =>
    simp only [AllocatorSet.spaceOf, same.larges] at found ⊢
    exact found

theorem Formed.restocked {spaces spaces' : Spaces} (formed : s.Formed spaces) (same : spaces.Restocked spaces') :
    s.Formed spaces' :=
  ⟨fun b member => (same.bumpable _).mpr (formed.bumps b member), formed.cells⟩

/-- What a set of allocators answers. -/
theorem alloc_ok (formed : s.Formed h.spaces)
    (estate : h.spaces.Estate h.memory rooms (s.buffers ++ buffers) (s.keys ++ keys))
    (ok : alloc selector r (s, h) = .ok answer (s', h')) :
    ∃ id, s.spaceOf selector = .ok id ∧ s'.Formed h'.spaces ∧ s.BoundAlike s' ∧
      (h.Provided h' ∧ h.spaces.AgreeBut h'.spaces id) ∧
      (∀ q ∈ rooms, AgreeOn h.memory h'.memory q.2) ∧
      (answer = none → h'.spaces.Estate h'.memory rooms (s'.buffers ++ buffers) (s'.keys ++ keys) ∧
        (h.spaces.Occupied rooms → h'.spaces.Occupied rooms)) ∧
      ∀ a, answer = some a → (id = .large → 0 < r.size + Padding.slack r.align) ∧
        ∃ room, Allotted h' r a room ∧
          h'.spaces.Estate h'.memory ((id, room) :: rooms) (s'.buffers ++ buffers) (s'.keys ++ keys) ∧
          (h.spaces.Occupied rooms → h'.spaces.Occupied ((id, room) :: rooms)) := by
  simp only [alloc, Step.bind_ok, Step.ask_ok] at ok
  obtain ⟨id, _, ⟨found, rfl⟩, ok⟩ := ok
  refine ⟨id, found, ?_⟩
  cases selector with
  | none => cases found
  | large index =>
    simp only [spaceOf] at found
    split at found
    · cases found
      simp only [Step.on_ok, Focus.snd, Prod.mk.injEq] at ok
      obtain ⟨h₁, served, rfl, rfl⟩ := ok
      obtain ⟨⟨provided, elsewhere⟩, agree, none₁, some₁⟩ := LargeAllocator.alloc_ok estate served
      exact ⟨formed.restocked provided.restocked, .refl _, ⟨provided, elsewhere⟩, agree, none₁,
        fun a same => ⟨fun _ => (some₁ a same).1, (some₁ a same).2⟩⟩
    · cases found
  | bump index =>
    simp only [spaceOf] at found
    cases bound : s.bumps[index.toNat]? with
    | none =>
      rw [bound] at found
      cases found
    | some b =>
      rw [bound] at found
      cases found
      obtain ⟨inside, same⟩ := Array.getElem?_eq_some_iff.mp bound
      simp only [Step.onBoth_ok, Focus.comp, Focus.fst, Focus.snd, bumpPart, Prod.mk.injEq,
        Array.setIfInBounds_setIfInBounds] at ok
      obtain ⟨b', h₁, served, rfl, rfl⟩ := ok
      rw [bound, Option.getD_some] at served
      have bumpable := formed.bumps b (same ▸ Array.getElem_mem inside)
      obtain ⟨split, split'⟩ := @perm_at _ _ s.bumps.toList _ (by simpa using inside) BumpAllocator.buffer b'
      rw [Array.getElem_toList, same] at split
      have front : h.spaces.Estate h.memory rooms
          (b.buffer ++ ((s.bumps.toList.eraseIdx index.toNat).flatMap BumpAllocator.buffer ++ buffers))
          (s.keys ++ keys) := by
        refine estate.of_perm (.refl _) ?_ (.refl _)
        rw [← append_assoc]
        exact (split.append_right _).symm
      have back : (AllocatorSet.buffers { s with bumps := s.bumps.setIfInBounds index.toNat b' }) ++ buffers ~
          b'.buffer ++ ((s.bumps.toList.eraseIdx index.toNat).flatMap BumpAllocator.buffer ++ buffers) := by
        rw [AllocatorSet.buffers, Array.toList_setIfInBounds, ← append_assoc]
        exact split'.append_right _
      obtain ⟨space, ⟨provided, elsewhere⟩, agree, none₁, some₁⟩ := BumpAllocator.alloc_ok bumpable front served
      have small : b.space ≠ .large := by
        intro large
        rw [large] at bumpable
        exact bumpable
      have occupied (rooms : List (SpaceId × Span)) (old : h.spaces.Occupied rooms) : h₁.spaces.Occupied rooms := by
        rwa [Spaces.Occupied, elsewhere.large small]
      refine ⟨⟨?_, formed.cells⟩, ?_, ⟨provided, elsewhere⟩, agree, ?_, ?_⟩
      · intro c member
        rcases Array.mem_or_eq_of_mem_setIfInBounds member with member | rfl
        · exact (provided.restocked.bumpable _).mpr (formed.bumps c member)
        · rw [space]
          exact (provided.restocked.bumpable _).mpr bumpable
      · have spaces : (s.bumps.setIfInBounds index.toNat b').toList.map (·.space) = s.bumps.toList.map (·.space) := by
          have inside' : index.toNat < (s.bumps.toList.map (·.space)).length := by simpa using inside
          have here : (s.bumps.toList.map (·.space))[index.toNat] = b.space := by simp [same]
          rw [Array.toList_setIfInBounds, map_set, space, ← here]
          exact set_getElem_self _
        exact ⟨spaces, rfl, rfl⟩
      · exact fun same => ⟨(none₁ same).of_perm (.refl _) back (.refl _), occupied rooms⟩
      · intro a same
        obtain ⟨room, allotted, estate'⟩ := some₁ a same
        exact ⟨fun large => absurd large small, room, allotted, estate'.of_perm (.refl _) back (.refl _),
          fun old => (occupied rooms old).mono (subset_cons_self _ _)⟩
  | cells index =>
    simp only [spaceOf] at found
    split at found
    · rename_i inside
      cases found
      simp only [Step.onBoth_ok, Focus.comp, Focus.fst, Focus.snd, cellsPart, Prod.mk.injEq,
        Array.setIfInBounds_setIfInBounds] at ok
      obtain ⟨c', h₁, served, rfl, rfl⟩ := ok
      rw [Array.getElem?_eq_getElem inside, Option.getD_some] at served
      have heads := formed.cells _ (Array.getElem_mem inside)
      obtain ⟨split, split'⟩ := @perm_at _ _ s.cells.toList _ (by simpa using inside) CellAllocator.keys c'
      rw [Array.getElem_toList] at split
      have front : h.spaces.Estate h.memory rooms (s.buffers ++ buffers)
          (s.cells[index.toNat].keys ++ ((s.cells.toList.eraseIdx index.toNat).flatMap CellAllocator.keys ++ keys)) := by
        refine estate.of_perm (.refl _) (.refl _) ?_
        rw [← append_assoc]
        exact (split.append_right _).symm
      have back : (AllocatorSet.keys { s with cells := s.cells.setIfInBounds index.toNat c' }) ++ keys ~
          c'.keys ++ ((s.cells.toList.eraseIdx index.toNat).flatMap CellAllocator.keys ++ keys) := by
        rw [AllocatorSet.keys, Array.toList_setIfInBounds, ← append_assoc]
        exact split'.append_right _
      obtain ⟨heads', ⟨provided, elsewhere⟩, agree, none₁, some₁⟩ := CellAllocator.alloc_ok heads front served
      have occupied (rooms : List (SpaceId × Span)) (old : h.spaces.Occupied rooms) : h₁.spaces.Occupied rooms := by
        rwa [Spaces.Occupied, elsewhere.large SpaceId.noConfusion]
      refine ⟨⟨fun b member => (provided.restocked.bumpable _).mpr (formed.bumps b member), ?_⟩, ?_,
        ⟨provided, elsewhere⟩, agree, ?_, ?_⟩
      · intro c member
        rcases Array.mem_or_eq_of_mem_setIfInBounds member with member | rfl
        · exact formed.cells c member
        · exact heads'
      · exact ⟨rfl, Array.size_setIfInBounds, rfl⟩
      · exact fun same => ⟨(none₁ same).of_perm (.refl _) (.refl _) back, occupied rooms⟩
      · intro a same
        obtain ⟨room, allotted, estate'⟩ := some₁ a same
        exact ⟨fun large => (by cases large), room, allotted, estate'.of_perm (.refl _) (.refl _) back,
          fun old => (occupied rooms old).mono (subset_cons_self _ _)⟩
    · cases found

end AllocatorSet

end TracingHeap

import TracingHeap.Proofs.Foundings

/-! What stays true of a heap between collections while the program works. Most operations change one thing only:
memory was handed out, one object was written to, or the books were kept; all else is carried over as it is. -/

namespace TracingHeap

open List Memory

/-- No space has forgotten what it noted since the last collection, and none has moved. -/
structure Spaces.Retains (s s' : Spaces) : Prop where
  plan : s'.plan = s.plan
  extent : ∀ id, (s'.space id).extent = (s.space id).extent
  freshMark : ∀ id, (s'.space id).freshMark = (s.space id).freshMark
  copying : ∀ id y, s'.space id = .copying y → ∃ x, s.space id = .copying x ∧ y.forwarding = x.forwarding
  region : ∀ id, (s'.space id).region = (s.space id).region
  immortal : ∀ a, s.immortal.marks.entryByte a = s.immortal.current → s'.immortal.marks.entryByte a = s'.immortal.current
  young : s'.large.treadmill.young = s.large.treadmill.young
  old : s'.large.treadmill.old = s.large.treadmill.old
  survivors : s'.large.treadmill.survivors = s.large.treadmill.survivors
  level : s'.excess = s.excess

theorem Spaces.Retains.refl (s : Spaces) : s.Retains s :=
  ⟨rfl, fun _ => rfl, fun _ => rfl, fun _ x space => ⟨x, space, rfl⟩, fun _ => rfl, fun _ mark => mark, rfl, rfl,
    rfl, rfl⟩

theorem Spaces.Restocked.retains {s s' : Spaces} (same : s.Restocked s') (level : s'.excess = s.excess) : s.Retains s' where
  plan := same.plan
  extent := same.extent
  freshMark id := freshMark_congr same.plan (same.extent id) (same.region id)
  copying id x space := by
    rcases same.space_cases id with ⟨y, p, before, after⟩ | ⟨y, p, _, _, _, _, -, -, -, after, -⟩ | ⟨y, p, -, after⟩ | ⟨y, p, -, after⟩
    · cases after.symm.trans space
      exact ⟨y, before, rfl⟩
    · cases after.symm.trans space
    · cases after.symm.trans space
    · cases after.symm.trans space
  region := same.region
  immortal a mark := by
    obtain ⟨p, immortal⟩ := same.immortal
    rw [immortal]
    exact mark
  young := by
    obtain ⟨p, large⟩ := same.large
    rw [large]
  old := by
    obtain ⟨p, large⟩ := same.large
    rw [large]
  survivors := by
    obtain ⟨p, large⟩ := same.large
    rw [large]
  level := level

theorem Heap.current_ne_other (h : Heap) (semispace : h.plan = .semispace) : h.current ≠ h.other := by
  rw [current, semispace, other]
  cases h.scope.flipped <;> decide

theorem Heap.other_half (h : Heap) : h.other = .first ∨ h.other = .second := by
  rw [other]
  cases h.scope.flipped <;> simp

theorem Heap.other_congr {h h' : Heap} (flipped : h'.scope.flipped = h.scope.flipped) : h'.other = h.other := by
  rw [other, other, flipped]

section

variable {h h' : Heap} {cs cs' : List Collector} {pieces pieces' objects : List Piece} {p : Piece}

/-- Memory changes hands. -/
theorem Quiet.carry (quiet : Quiet h cs pieces) (retains : h.spaces.Retains h'.spaces)
    (flipped : h'.scope.flipped = h.scope.flipped)
    (held : h'.spaces.Held h'.memory pieces' (cs'.flatMap Collector.buffers ++ h'.buffers) (cs'.flatMap Collector.keys ++ h'.keys))
    (tracked : h'.spaces.Tracked pieces')
    (mutators : ∀ m ∈ h'.program.mutators, m.allocators.Formed h'.spaces ∧ (Mutator.unused h.current h.plan).BoundAlike m.allocators)
    (collectors : ∀ c ∈ cs', c.copies.Aimed h ∧ c.Idle) (half : h.plan = .semispace → ∀ p ∈ pieces', p.home ≠ h.other)
    (vacant : h.plan = .semispace → h'.spaces.space h.other = h.spaces.space h.other) :
    Quiet h' cs' pieces' where
  held := held
  tracked := tracked
  mutators := by
    rw [Heap.current_congr retains.plan flipped, show h'.plan = h.plan from retains.plan]
    exact mutators
  collectors c member := ⟨(collectors c member).1.carry retains.plan flipped, (collectors c member).2⟩
  unforwarded id x space a low high := by
    obtain ⟨y, before, forwarding⟩ := retains.copying id x space
    have extent := retains.extent id
    rw [space, before] at extent
    change x.pages.extent = y.pages.extent at extent
    rw [extent] at low high
    rw [forwarding]
    exact quiet.unforwarded id y before a low high
  rested id := by
    rw [retains.region id]
    exact quiet.rested id
  settled := by
    rw [retains.young, retains.old]
    exact quiet.settled
  half semispace p member := by
    rw [Heap.other_congr flipped]
    exact half (retains.plan.symm.trans semispace) p member
  vacant semispace x space := by
    have semispace := retains.plan.symm.trans semispace
    rw [Heap.other_congr flipped, vacant semispace] at space
    exact quiet.vacant semispace x space
  stamping := Spaces.stamping_congr retains.plan retains.freshMark quiet.stamping

/-- The program reads the same in every object that it knows. -/
theorem Knows.carry (knows : Knows h pieces objects) (retains : h.spaces.Retains h'.spaces)
    (there : ∀ o ∈ objects, o ∈ pieces') (shape : ∀ o ∈ objects, h'.memory.shape o.start = h.memory.shape o.start)
    (field : ∀ o ∈ objects, ∀ i < h.memory.fields o.start, h'.memory.field o.start i = h.memory.field o.start i)
    (roots : h'.program.roots = h.program.roots) (recorded : ∀ a, a ∈ h'.recorded ↔ a ∈ h.recorded) :
    Knows h' pieces' objects := by
  have count : ∀ o ∈ objects, h'.memory.fields o.start = h.memory.fields o.start := fun o member => by
    rw [Memory.fields, Memory.fields, shape o member]
  refine ⟨fun o member => ⟨there o member, (knows.known o member).2⟩, fun o member => ?_, fun o member x space => ?_,
    fun o member i inside => ?_, ?_, fun o member home => ?_, fun a noted => ?_, fun generational o member old => ?_⟩
  · rw [count o member]
    exact knows.shaped o member
  · obtain ⟨y, before, -⟩ := retains.copying _ x space
    have size : (h'.memory.header o.start).size = (h.memory.header o.start).size := congrArg Prod.fst (shape o member)
    rw [size]
    exact knows.movable o member y before
  · rw [count o member] at inside
    rw [field o member i inside]
    exact knows.fields o member i inside
  · rw [roots]
    exact knows.roots
  · exact retains.immortal o.start (knows.immortal o member home)
  · rw [show h'.plan = h.plan from retains.plan]
    exact knows.recorded a ((recorded a).mp noted)
  · rw [recorded, count o member]
    refine (knows.old (retains.plan.symm.trans generational) o member old).imp_right fun targets i inside => ?_
    rw [field o member i inside]
    refine (targets i inside).imp_right ?_
    rintro ⟨q, known, holds, away, survivor⟩
    refine ⟨q, known, holds, away, fun large => ?_⟩
    rw [retains.survivors]
    exact survivor large

/-- The collector's bytes of all objects are as they were, and the same objects are recorded. -/
theorem Logged.carry (logged : Logged h pieces) (plan : h'.plan = h.plan)
    (objects : ∀ p ∈ pieces', p.isObject = true → p ∈ pieces ∧ h'.memory.mark p.start = h.memory.mark p.start)
    (recorded : h'.recorded ~ h.recorded) : Logged h' pieces' where
  stamped p member object := by
    obtain ⟨before, mark⟩ := objects p member object
    obtain ⟨unlogged, stamped, iff⟩ := logged.stamped p before object
    refine ⟨unlogged, mark.trans stamped, ?_⟩
    rw [plan, recorded.mem_iff]
    exact iff
  single := recorded.nodup_iff.mpr logged.single

end

/-- The heap goes on between collections. -/
structure Heap.Continues (h h' : Heap) : Prop where
  retains : h.spaces.Retains h'.spaces
  flipped : h'.scope.flipped = h.scope.flipped
  settings : h'.settings = h.settings
  layout : h'.layout = h.layout
  collectors : h'.collectors = h.collectors

theorem Heap.Continues.plan {h h' : Heap} (continues : h.Continues h') : h'.plan = h.plan := continues.retains.plan

theorem Heap.Continues.team {h h' : Heap} (continues : h.Continues h') : h'.team = h.team := by
  rw [Heap.team, Heap.team, continues.collectors]

/-- What the program has and names is sound again, as long as the pieces and objects are. -/
theorem World.Sound.continued {w : World} {h' : Heap} {pieces pieces' objects objects' : List Piece} {tenants : Set Tenant}
    {named recent : Set Address} (sound : w.Sound pieces objects) (continues : w.heap.Continues h') (quiet : Quiet h' h'.team pieces')
    (knows : Knows h' pieces' objects') (logged : Logged h' pieces')
    (modest : ∀ p ∈ pieces', ∀ x, w.heap.spaces.space p.home = .copying x → p.bytes ≤ 8192)
    (had : ∀ t, t ∈ tenants ↔ ∃ p ∈ pieces', p.tenant = t) (known : ∀ a, a ∈ named ↔ ∃ o ∈ objects', o.start = a)
    (fresh : ∀ p ∈ pieces', p.isObject = true → p.home = .large →
      (p.start ∈ h'.spaces.large.treadmill.fresh ↔ p.start ∈ recent))
    (occupied : h'.spaces.Occupied (pieces'.map Piece.held)) :
    World.Sound ⟨h', tenants, named, recent⟩ pieces' objects' where
  quiet := quiet
  knows := knows
  logged := logged
  manned group there := by
    rw [continues.collectors] at there
    rw [continues.settings]
    exact sound.manned group there
  charted := by
    simp only [Spaces.Charted, continues.layout, continues.retains.extent]
    exact sound.charted
  tags id := by
    rw [continues.retains.extent]
    exact sound.tags id
  modest p member x space := by
    obtain ⟨y, before, -⟩ := continues.retains.copying _ x space
    exact modest p member y before
  tenants := had
  named := known
  recent := fresh
  exact := continues.retains.level.trans sound.exact
  occupied := occupied

/-- What agrees on the room of a piece agrees on what can be read of it. -/
theorem Spaces.Held.read_agree {s : Spaces} {m m' m'' : Memory} {pieces : List Piece} {buffers : List (SpaceId × Span)}
    {keys : List (Nat × Address)} {p : Piece} (held : s.Held m'' pieces buffers keys) (member : p ∈ pieces)
    (agree : AgreeOn m m' p.span) : m'.shape p.start = m.shape p.start ∧ m'.mark p.start = m.mark p.start ∧
      ∀ i, 16 + 8 * i ≤ p.bytes → m'.field p.start i = m.field p.start i := by
  have placed := held.placed p member
  have whole := held.whole member
  obtain ⟨alike, field⟩ := alike_of_agree agree placed.aligned placed.low whole.1 placed.high placed.room
  exact ⟨alike.shape, mark_of_agree placed whole (held.bound member) agree, field⟩

/-- Whatever happens elsewhere, an object that the program knows reads the same. -/
theorem Knows.read {h : Heap} {s : Spaces} {m m' : Memory} {pieces objects : List Piece} {buffers : List (SpaceId × Span)}
    {keys : List (Nat × Address)} {o : Piece} (knows : Knows h pieces objects) (held : s.Held m pieces buffers keys)
    (member : o ∈ objects) (agree : AgreeOn h.memory m' o.span) : m'.shape o.start = h.memory.shape o.start ∧
      ∀ i < h.memory.fields o.start, m'.field o.start i = h.memory.field o.start i := by
  obtain ⟨shape, -, field⟩ := held.read_agree (knows.known o member).1 agree
  have fits := (knows.shaped o member).2
  exact ⟨shape, fun i inside => field i (by omega)⟩

end TracingHeap

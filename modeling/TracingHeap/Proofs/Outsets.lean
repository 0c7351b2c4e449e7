import TracingHeap.Proofs.Readiness

/-! The outset of a closure that comes out of a heap between collections. Whatever the phases before it did, in
whatever order the collectors took their steps, what the program knows is sound and a closure can start. -/

namespace TracingHeap

open List Memory Work

/-- Whether the barrier watches is decided by where the extents are and by the regions' habit of logging. -/
theorem Spaces.stamping_congr {s s' : Spaces} (plan : s'.plan = s.plan)
    (fresh : ∀ id, (s'.space id).freshMark = (s.space id).freshMark) (stamping : s.Stamping) : s'.Stamping := fun id => by
  rw [fresh id, stamping id, plan]

/-- Large objects allocated since the last collection are young now; if the collection covers all large objects, the
survivors of the last one are old. -/
theorem LargeSpace.Tracked.readied {x : LargeSpace} {pieces : List Piece} {whole : Bool} (tracked : x.Tracked pieces)
    (settled : ∀ o, o ∉ x.treadmill.young ∧ o ∉ x.treadmill.old) : (x.readied whole).Tracked pieces := by
  have listed : ∀ o, o ∈ x.treadmill.fresh ∨ o ∈ x.treadmill.survivors ↔ o ∈ x.treadmill.fresh ∨
      o ∈ x.treadmill.survivors ∨ o ∈ x.treadmill.young ∨ o ∈ x.treadmill.old := fun o =>
    ⟨fun on => on.imp_right .inl, fun on => on.imp_right fun rest => rest.resolve_right fun bad =>
      bad.elim (settled o).1 (settled o).2⟩
  cases whole with
  | false =>
    refine ⟨tracked.table, tracked.current, fun o bad => absurd bad Std.TreeSet.not_mem_emptyc, tracked.survivors,
      tracked.fresh, fun o bad => absurd bad (settled o).2, fun o on => tracked.listed o ?_, fun p inside home object => ?_⟩
    · rcases on with bad | on | on | on
      · exact absurd bad Std.TreeSet.not_mem_emptyc
      · exact .inr (.inl on)
      · exact .inl on
      · exact .inr (.inr (.inr on))
    · rcases (listed _).mpr (tracked.complete p inside home object) with on | on
      · exact .inr (.inr (.inl on))
      · exact .inr (.inl on)
  | true =>
    have back : (1 : UInt8) - (1 - x.current) = x.current := by
      rcases tracked.current with current | current <;> rw [current] <;> decide
    refine ⟨tracked.table, ?_, fun o bad => absurd bad Std.TreeSet.not_mem_emptyc,
      fun o bad => absurd bad Std.TreeSet.not_mem_emptyc, fun o on => ?_, fun o on => ⟨rfl, ?_⟩,
      fun o on => tracked.listed o ?_, fun p inside home object => ?_⟩
    · rcases tracked.current with current | current
      · exact .inr (by simp only [LargeSpace.readied, if_true, current]; decide)
      · exact .inl (by simp only [LargeSpace.readied, if_true, current]; decide)
    · simp only [LargeSpace.readied, if_true, Bool.not_true, Bool.false_eq_true, if_false, back]
      exact tracked.fresh o on
    · simp only [LargeSpace.readied, if_true, back]
      exact tracked.survivors o on
    · rcases on with bad | bad | on | on
      · exact absurd bad Std.TreeSet.not_mem_emptyc
      · exact absurd bad Std.TreeSet.not_mem_emptyc
      · exact .inl on
      · exact .inr (.inl on)
    · rcases (listed _).mpr (tracked.complete p inside home object) with on | on
      · exact .inr (.inr (.inl on))
      · exact .inr (.inr (.inr on))

namespace Heap.Set

variable {h h' : Heap} {full : Bool} {pieces known : List Piece} {cs : List Collector} {p o : Piece} {id : SpaceId}

theorem freshMark (set : h.Set h' full) (id : SpaceId) : (h'.spaces.space id).freshMark = (h.spaces.space id).freshMark := by
  rw [set.spaces, Spaces.readied]
  cases second : h.spaces.second with
  | mature x =>
    cases id with
    | first => rfl
    | second => cases full <;> simp only [Spaces.space, second] <;> rfl
    | immortal => cases full <;> rfl
    | large => rfl
  | twin x =>
    cases id with
    | first => rfl
    | second => simp only [Spaces.space, second]; rfl
    | immortal => rfl
    | large => rfl

theorem stamping (set : h.Set h' full) (stamping : h.spaces.Stamping) : h'.spaces.Stamping :=
  Spaces.stamping_congr set.plan set.freshMark stamping

/-- A copying space has the same memory and the same table as before. -/
theorem copying (set : h.Set h' full) {x : CopySpace} (space : h'.spaces.space id = .copying x) :
    ∃ y, h.spaces.space id = .copying y ∧ x.pages = y.pages ∧ x.forwarding = y.forwarding := by
  rw [set.spaces, Spaces.readied] at space
  cases second : h.spaces.second with
  | mature y =>
    cases id with
    | first =>
      simp only [second, Spaces.space, Space.copying.injEq] at space
      exact ⟨_, rfl, space ▸ rfl, space ▸ rfl⟩
    | second => simp only [second, Spaces.space, reduceCtorEq] at space
    | immortal => simp only [second, Spaces.space, reduceCtorEq] at space
    | large => simp only [second, Spaces.space, reduceCtorEq] at space
  | twin y =>
    cases id with
    | first =>
      simp only [second, Spaces.space, Space.copying.injEq] at space
      exact ⟨_, rfl, space ▸ rfl, space ▸ rfl⟩
    | second =>
      simp only [second, Spaces.space, Space.copying.injEq] at space
      exact ⟨y, by rw [Spaces.space, second], space ▸ rfl, space ▸ rfl⟩
    | immortal => simp only [second, Spaces.space, reduceCtorEq] at space
    | large => simp only [second, Spaces.space, reduceCtorEq] at space

theorem tracked (set : h.Set h' full) (quiet : Quiet h cs pieces) : h'.spaces.Tracked pieces := by
  refine ⟨fun id x space => ?_, fun x second => ?_, fun x second prepared => ?_, ?_, ?_⟩
  · obtain ⟨y, space', pages, forwarding⟩ := set.copying space
    have tracked := quiet.tracked.copying id y space'
    refine ⟨?_, ?_, fun a low high => .inl (set.unforwarded quiet space low high), ?_⟩
    · rw [forwarding, pages]
      exact tracked.states
    · rw [forwarding, pages]
      exact tracked.copies
    · rw [forwarding, pages]
      exact tracked.blank
  · obtain ⟨-, y, second', rfl⟩ := set.second_mature second
    have tracked := quiet.tracked.mature y second'
    cases full with
    | false => exact tracked
    | true =>
      refine ⟨tracked.table, ?_, fun a low high => (tracked.entries a low high).imp_right fun ⟨value, cell⟩ => ⟨?_, cell⟩⟩
      · rcases tracked.current with one | two
        · exact .inr (by simp only [if_true, MarkSweepSpace.readied, one]; decide)
        · exact .inl (by simp only [if_true, MarkSweepSpace.readied, two]; decide)
      · simp only [if_true, MarkSweepSpace.readied]
        rw [show (3 : UInt8) - (3 - y.current) = y.current by rcases tracked.current with c | c <;> rw [c] <;> decide]
        refine (value.imp_right (·.2)).symm.imp_right fun old => ⟨rfl, old⟩
  · obtain ⟨-, y, second', rfl⟩ := set.second_mature second
    cases full with
    | false =>
      have idle := quiet.rested .second
      simp only [Spaces.space, second', Space.region] at idle
      exact absurd prepared (ne_true_of_eq_false idle)
    | true =>
      -- The marks that there are became old ones.
      intro a low high marked
      simp only [if_true, MarkSweepSpace.readied] at marked
      rcases quiet.mature y second' a low high with found | found <;>
        rcases (quiet.tracked.mature y second').current with value | value <;> rw [found, value] at marked <;>
        exact absurd marked (by decide)
  · rw [set.immortal_space]
    split
    · exact quiet.tracked.immortal
    · refine ⟨quiet.tracked.immortal.table, ?_⟩
      rcases quiet.tracked.immortal.current with zero | one
      · exact .inr (by simp only [ImmortalSpace.readied, zero]; decide)
      · exact .inl (by simp only [ImmortalSpace.readied, one]; decide)
  · rw [set.large_space]
    exact quiet.tracked.large.readied quiet.settled

/-- A collection of young objects alone is done with old objects before it starts. -/
theorem done_iff_aged (set : h.Set h' false) (quiet : Quiet h cs pieces) (member : p ∈ pieces)
    (generational : h.plan = .generational) : h'.Done p ↔ h.Aged p := by
  obtain ⟨first, second⟩ := home_current quiet member
  have covered := set.covered second first
  simp only [generational, forall_const, Bool.false_eq_true, imp_false, not_or] at covered
  have survivors : p.home = .large → (h'.spaces.Reached p ↔ p.start ∈ h.spaces.large.treadmill.survivors) := by
    intro home
    unfold Spaces.Reached
    rw [home, Spaces.space]
    simp only [set.large_space, generational, forall_const, Bool.false_eq_true, decide_false, LargeSpace.readied,
      Treadmill.turn, if_false]
  constructor
  · intro done
    refine ⟨fun home => ?_, fun home => (survivors home).mp (done (covered.mpr (by simp [home])))⟩
    have moves : h'.spaces.Evacuates p.home := set.evacuates.mpr (first home)
    exact set.unreached_copying quiet member moves (done (covered.mpr (by simp [home])))
  · rintro ⟨old, on⟩ under
    obtain ⟨out, out'⟩ := covered.mp under
    cases home : p.home with
    | first => exact absurd home old
    | second => exact absurd home out
    | immortal => exact absurd home out'
    | large => exact (survivors home).mpr (on home)

/-- A collection that covers everything is done with nothing before it starts. -/
theorem not_done (set : h.Set h' full) (quiet : Quiet h cs pieces) (knows : Knows h pieces known) (member : o ∈ known)
    (whole : h.plan = .generational → full = true) : ¬ h'.Done o := by
  obtain ⟨first, second⟩ := home_current quiet (knows.known o member).1
  exact fun done => set.unreached quiet knows member whole (done ((set.covered second first).mpr fun gen _ => whole gen))

/-- What the program knows is a sound outset. -/
theorem sound (set : h.Set h' full) (quiet : Quiet h cs pieces) (knows : Knows h pieces known) (logged : Logged h pieces)
    (remembered : ∀ a, (∃ packet ∈ h'.backlog.remembered, a ∈ packet) ↔ a ∈ h.recorded) :
    Outset.Sound ⟨h', pieces, known⟩ := by
  refine ⟨knows.known, fun o member => ?_, fun o member moves => ?_, fun o member i small => ?_, fun i a holds => ?_,
    fun packet inside a inner => ?_, fun o member done => ?_, fun p member moves => set.unreached_copying quiet member moves,
    fun p member object => ?_, set.stamping quiet.stamping⟩
  · rw [Outset.count, set.memory]
    exact knows.shaped o member
  · rw [set.memory]
    unfold Spaces.Evacuates at moves
    cases space : h'.spaces.space o.home with
    | copying x =>
      obtain ⟨y, space', -⟩ := set.copying space
      exact knows.movable o member y space'
    | markSweep x => rw [space] at moves; exact moves.elim
    | immortal x => rw [space] at moves; exact moves.elim
    | large x => rw [space] at moves; exact moves.elim
  · rw [Outset.count, set.memory] at small
    rw [Outset.target, set.memory]
    exact knows.fields o member i small
  · rw [set.roots] at holds
    exact knows.roots a (Array.mem_of_getElem? holds)
  · obtain ⟨o, member, rfl, watched⟩ := knows.recorded a ((remembered a).mp ⟨packet, inside, inner⟩)
    refine ⟨o, member, rfl, ?_, set.plan.symm ▸ watched⟩
    rw [set.evacuates, current, (Plan.watches_iff.mp watched).1]
    exact (Plan.watches_iff.mp watched).2
  · by_cases whole : h.plan = .generational → full = true
    · exact absurd done (set.not_done quiet knows member whole)
    · obtain ⟨generational, young⟩ := Classical.not_imp.mp whole
      obtain rfl := Bool.eq_false_iff.mpr young
      obtain ⟨old, -⟩ := (set.done_iff_aged quiet (knows.known o member).1 generational).mp done
      refine (knows.old generational o member old).imp (fun on => ⟨(remembered _).mpr on, ?_⟩) fun settled i small => ?_
      · rw [set.nurseryOnly, generational]
        rfl
      · rw [Outset.count, set.memory] at small
        rw [Outset.target, set.memory]
        refine (settled i small).imp_right ?_
        rintro ⟨q, member', same, aged⟩
        exact ⟨q, member', same, (set.done_iff_aged quiet (knows.known q member').1 generational).mpr aged⟩
  · obtain ⟨unlogged, stamped, exact_⟩ := logged.stamped p member object
    refine ⟨unlogged, by rw [set.memory]; exact stamped, ?_⟩
    simp only [set.plan]
    split
    · rename_i watches
      by_cases on : p.start ∈ h.recorded
      · exact .inr ((remembered _).mpr on)
      · exact .inl (exact_.mpr ⟨watches, on⟩)
    · rename_i free
      exact Bool.eq_false_iff.mpr fun bad => free (exact_.mp bad).1

end Heap.Set

/-! ### The phases before a closure -/

/-- A heap about to start a closure, and the collectors that will carry it out. -/
structure Heap.Opened (h h' : Heap) (cs cs' : List Collector) (full : Bool) : Prop where
  set : h.Set h' full
  kind : h.plan = .generational → h.wantsFull = .ok full
  remembered : ∀ a, (∃ packet ∈ h'.backlog.remembered, a ∈ packet) ↔ a ∈ h.recorded
  roots : ∀ x, (∃ packet ∈ h'.backlog.roots, x ∈ packet) ↔ x ∈ h'.rootSlots
  objects : h'.backlog.objects.stack = [] ∧ h'.backlog.objects.idle = 0 ∧ h'.backlog.objects.drained = false
  participants : h'.backlog.objects.participants = h.settings.threads
  settings : h'.settings = h.settings
  layout : h'.layout = h.layout
  mutators : h'.program.mutators = h.program.mutators.map (·.readied h'.sweeps)
  collectors : Forall₂ (fun c c' => ∃ copies, c' = c.readied copies ∧ (h.plan = .generational ∧ copies = c.copies ∨
    h.plan = .semispace ∧ c.copies.rebind 0 h'.current = .ok copies)) cs cs'

/-- The phases before a closure, from the last one back. -/
theorem Crew.Begun.opened {h₀ h : Heap} {cs₀ cs : List Collector} {pieces₀ known pieces : List Piece}
    (begun : Begun 0 h₀ cs₀ pieces₀ known 4 h cs pieces) : pieces = pieces₀ ∧ ∃ full, h₀.Opened h cs₀ cs full := by
  cases begun with
  | each _ two => omega
  | once begun rooted =>
  cases begun with
  | once _ bad => exact bad.elim
  | each begun _ turned =>
  cases begun with
  | each _ two => omega
  | once begun mutated =>
  cases begun with
  | each _ two => omega
  | once begun prepared =>
  cases begun
  obtain ⟨full, kind, rfl⟩ := Heap.prepare_ok prepared
  obtain ⟨remembered, rfl, content⟩ := Heap.mutatorsPrepare_ok mutated
  obtain ⟨roots, rfl, packets⟩ := rooted
  have set : h₀.Set (h₀.readied full) full := ⟨rfl, rfl, rfl, rfl⟩
  refine ⟨rfl, full, ⟨rfl, rfl, rfl, rfl⟩, kind, content, fun x => (packets x).trans (or_iff_right ?_), ⟨rfl, rfl, rfl⟩, rfl, rfl, rfl, rfl,
    turned.imp fun c c' took => ?_⟩
  · rintro ⟨_, inside, -⟩
    exact not_mem_nil inside
  · obtain ⟨-, copies, same, how⟩ := Collector.prepare_ok took
    refine ⟨copies, same, ?_⟩
    rw [← set.plan]
    exact how

theorem AllocatorSet.rebindBump_keys (s : AllocatorSet) (k : Nat) (id : SpaceId) : (s.rebindBump k id).keys = s.keys := rfl

/-- A collector's allocators move to the half that is in use. -/
theorem CopyContext.Aimed.rebind {c c' : CopyContext} {h h' : Heap} (aimed : c.Aimed h) (semispace : h.plan = .semispace)
    (plan : h'.plan = h.plan) (ok : c.rebind 0 h'.current = .ok c') :
    c'.Aimed h' ∧ c'.allocators = c.allocators.rebindBump 0 h'.current := by
  rw [CopyContext.rebind] at ok
  split at ok
  · cases ok
  obtain rfl := Except.ok.inj ok
  have half : h'.current = .first ∨ h'.current = .second := by
    rw [Heap.current, plan, semispace]
    cases h'.scope.flipped <;> simp
  have bumpable : ∀ {id}, h.spaces.Bumpable id → h'.spaces.Bumpable id := fun {id} old => by
    rw [Spaces.bumpable_iff] at old ⊢
    exact old.imp_right (Or.imp_right (And.imp_right plan.trans))
  have formed : c.allocators.Formed h'.spaces := ⟨fun b member => bumpable (aimed.formed.bumps b member), aimed.formed.cells⟩
  refine ⟨⟨AllocatorSet.rebindBump_formed formed (Spaces.bumpable_iff.mpr ?_), ?_, ?_⟩, rfl⟩
  · exact half.imp_right fun second => .inr ⟨second, plan.trans semispace⟩
  · simp only [aimed.destinations, plan, semispace, bindings]
    rfl
  · have bound := aimed.bound
    rw [semispace] at bound
    rw [plan, semispace]
    exact CopyContext.unused_rebind bound

namespace Heap.Opened

variable {h h' : Heap} {full : Bool} {pieces known : List Piece} {cs cs' : List Collector}

/-- What happened to the allocators of one collector. -/
theorem collector (opened : h.Opened h' cs cs' full) (quiet : Quiet h cs pieces) {c c' : Collector} (member : c ∈ cs)
    (related : ∃ copies, c' = c.readied copies ∧ (h.plan = .generational ∧ copies = c.copies ∨
      h.plan = .semispace ∧ c.copies.rebind 0 h'.current = .ok copies)) :
    c'.copies.Aimed h' ∧ c'.buffers <+ c.buffers ∧ c'.keys = c.keys ∧ c'.state = .prepared ∧ c'.buffer = #[] := by
  obtain ⟨copies, rfl, ⟨generational, rfl⟩ | ⟨semispace, rebound⟩⟩ := related
  · refine ⟨(quiet.collectors c member).1.carry opened.set.plan ?_, .refl _, rfl, rfl, rfl⟩
    rw [opened.set.flipped, generational]
  · obtain ⟨aimed, same⟩ := (quiet.collectors c member).1.rebind semispace opened.set.plan rebound
    refine ⟨aimed, ?_, ?_, rfl, rfl⟩
    · change copies.allocators.buffers <+ c.copies.allocators.buffers
      rw [same]
      exact AllocatorSet.rebindBump_buffers _ 0 _
    · change copies.allocators.keys = c.copies.allocators.keys
      rw [same, AllocatorSet.rebindBump_keys]

theorem collectors_ok (opened : h.Opened h' cs cs' full) (quiet : Quiet h cs pieces) :
    (∀ c ∈ cs', c.copies.Aimed h' ∧ c.state = .prepared ∧ c.buffer = #[]) ∧
      cs'.flatMap Collector.buffers <+ cs.flatMap Collector.buffers ∧
      cs'.flatMap Collector.keys = cs.flatMap Collector.keys := by
  have all : ∀ {cs cs' : List Collector}, Forall₂ (fun c c' => c'.copies.Aimed h' ∧ c'.buffers <+ c.buffers ∧
      c'.keys = c.keys ∧ c'.state = .prepared ∧ c'.buffer = #[]) cs cs' →
      (∀ c ∈ cs', c.copies.Aimed h' ∧ c.state = .prepared ∧ c.buffer = #[]) ∧
      cs'.flatMap Collector.buffers <+ cs.flatMap Collector.buffers ∧
      cs'.flatMap Collector.keys = cs.flatMap Collector.keys := by
    intro cs cs' related
    induction related with
    | nil => exact ⟨fun _ bad => absurd bad not_mem_nil, .refl _, rfl⟩
    | cons one _ ih =>
      obtain ⟨aimed, buffers, keys, fresh⟩ := one
      refine ⟨forall_mem_cons.mpr ⟨⟨aimed, fresh⟩, ih.1⟩, ?_, ?_⟩
      · rw [flatMap_cons, flatMap_cons]
        exact buffers.append ih.2.1
      · rw [flatMap_cons, flatMap_cons, keys, ih.2.2]
  refine all (forall₂_iff_get.mpr ⟨opened.collectors.length_eq, fun i small small' => ?_⟩)
  exact opened.collector quiet (get_mem ..) (opened.collectors.get small small')

/-- The mutators keep their memory, but for free cells that are about to be swept. -/
theorem mutators_ok (opened : h.Opened h' cs cs' full) : h'.buffers = h.buffers ∧
    (h'.keys = h.keys ∨ ∀ key ∈ h'.keys, key.2 = .null) := by
  rw [Heap.buffers, Heap.buffers, Heap.keys, Heap.keys, opened.mutators, Array.toList_map, flatMap_map, flatMap_map]
  cases h'.sweeps with
  | false => exact ⟨rfl, .inl rfl⟩
  | true =>
    refine ⟨rfl, .inr fun key member => ?_⟩
    obtain ⟨m, -, inner⟩ := mem_flatMap.mp member
    exact AllocatorSet.resetCells_keys inner

/-- What the collectors rely on. -/
theorem shared (opened : h.Opened h' cs cs' full) (quiet : Quiet h cs pieces) : Team.Shared cs' h' pieces := by
  obtain ⟨collectors, fewer, keys⟩ := opened.collectors_ok quiet
  obtain ⟨buffers, cells⟩ := opened.mutators_ok
  have held : h.spaces.Held h.memory pieces (cs'.flatMap Collector.buffers ++ h'.buffers)
      (cs'.flatMap Collector.keys ++ h'.keys) := by
    rw [buffers, keys]
    rcases cells with same | empty
    · rw [same, ← append_nil (cs.flatMap Collector.keys ++ h.keys)]
      exact quiet.held.shed (fewer.append (.refl _)) (.refl _) fun _ bad => absurd bad not_mem_nil
    · exact quiet.held.shed (fewer.append (.refl _)) (sublist_append_left _ _) empty
  refine ⟨?_, opened.set.tracked quiet, fun c member => (collectors c member).1, fun p member => opened.set.published quiet member,
    opened.set.still, fun o bad => ?_⟩
  · rw [opened.set.memory]
    exact held.alike opened.set.alike
  · rw [opened.set.large_space] at bad
    cases whole : decide (h.plan = .generational → full = true) <;> rw [whole] at bad <;>
      exact absurd bad Std.TreeSet.not_mem_emptyc

/-- A closure can start. -/
theorem opens (opened : h.Opened h' cs cs' full) (quiet : Quiet h cs pieces) (knows : Knows h pieces known)
    (logged : Logged h pieces) (size : h.settings.threads.toNat = cs.length) : Crew.Opens known h' cs' pieces := by
  have sound := opened.set.sound quiet knows logged opened.remembered
  have shared := opened.shared quiet
  obtain ⟨stack, idle, undrained⟩ := opened.objects
  refine ⟨sound, shared, sound.opening shared.tracked shared.held opened.roots fun x => Iff.rfl, stack, idle, undrained, ?_, ?_,
    fun c member => ((opened.collectors_ok quiet).1 c member).2⟩
  · rw [← opened.collectors.length_eq, ← size]
    exact h.settings.threads.toNat_lt
  · rw [opened.participants, size, opened.collectors.length_eq]

end Heap.Opened

/-- Out of a heap between collections, every closure can start. -/
theorem Crew.Begun.opens {h₀ h : Heap} {cs₀ cs : List Collector} {pieces₀ known pieces : List Piece} (quiet : Quiet h₀ cs₀ pieces₀)
    (knows : Knows h₀ pieces₀ known) (logged : Logged h₀ pieces₀) (size : h₀.settings.threads.toNat = cs₀.length)
    (begun : Begun 0 h₀ cs₀ pieces₀ known 4 h cs pieces) : Opens known h cs pieces := by
  obtain ⟨rfl, full, opened⟩ := begun.opened
  exact opened.opens quiet knows logged size

end TracingHeap

import TracingHeap.Proofs.Cycles

/-! The graph of objects. A collection carries every object that the roots lead to over to its place afterwards, which is
the same place unless the object was in the space that is emptied. To the program the graph has not changed. -/

namespace TracingHeap

open List Memory

/-- What the roots lead to depends on them and on memory only. -/
theorem Heap.Leads.congr {h h' : Heap} {a : Address} (leads : h.Leads a) (roots : h'.program.roots = h.program.roots)
    (memory : h'.memory = h.memory) : h'.Leads a := by
  induction leads with
  | root member proper => exact .root (roots.symm ▸ member) proper
  | field _ inside holds proper ih => exact .field ih (memory.symm ▸ inside) (memory.symm ▸ holds) proper

/-- The place that an address has after a collection whose closure is over. -/
def Heap.placeOf (h : Heap) (a : Address) : Address :=
  match h.spaces.holding? a with
  | some id => h.spaces.image ⟨a, 0, id, default, true⟩
  | none => a

theorem Heap.placeOf_eq {h : Heap} {pieces : List Piece} {buffers : List (SpaceId × Span)} {keys : List (Nat × Address)}
    {p : Piece} (held : h.spaces.Held h.memory pieces buffers keys) (member : p ∈ pieces) :
    h.placeOf p.start = h.spaces.image p := by
  rw [placeOf, held.holding member]
  rfl

/-- The program finds every object at its place `f` in another heap, and the same graph. -/
structure World.Carried (w : World) (h' : Heap) (f : Address → Address) : Prop where
  injective : Set.InjOn f {o | w.heap.Leads o}
  roots : h'.program.roots = w.heap.program.roots.map fun a => if a = .null then .null else f a
  fields : ∀ o, w.heap.Leads o → ∀ i < w.heap.memory.fields o,
    h'.memory.field (f o) i = if w.heap.memory.field o i = .null then .null else f (w.heap.memory.field o i)
  /-- Every object has memory of its own, and is read as before up to the end of it. -/
  content : ∀ o, w.heap.Leads o → ∃ t ∈ w.tenants, t.start = o ∧ t.isObject = true ∧ Alike w.heap.memory h'.memory o (f o) t.bytes
  still : ∀ o, w.heap.Leads o → (w.heap.spaces.space w.heap.current).extent.holds o = false → f o = o
  moved : ∀ o, w.heap.Leads o → (w.heap.spaces.space w.heap.current).extent.holds o = true →
    (w.heap.spaces.space w.heap.current).extent.holds (f o) = false

namespace Heap.Cycle

variable {h₀ h₁ h h' : Heap} {cs₀ cs cs' : List Collector} {pieces₀ known pieces kept : List Piece} {full : Bool}
  {o : Piece} {a b : Address} {i : Nat}

theorem evacuates (cycle : Cycle h₀ h₁ h h' cs₀ cs cs' pieces₀ known pieces kept full) (id : SpaceId) :
    h.spaces.Evacuates id ↔ id = h₀.current := by
  obtain ⟨_, opened⟩ := cycle.traced.opened
  exact (cycle.traced.closing.kept.evacuates id).trans opened.set.evacuates

theorem extent (cycle : Cycle h₀ h₁ h h' cs₀ cs cs' pieces₀ known pieces kept full) (id : SpaceId) :
    (h'.spaces.space id).extent = (h₀.spaces.space id).extent := by
  obtain ⟨_, opened⟩ := cycle.traced.opened
  exact (cycle.freed.extents id).trans ((cycle.traced.closing.kept.steady.extent id).trans (Spaces.Alike.extent (opened.set.alike id)))

theorem placeOf_eq (cycle : Cycle h₀ h₁ h h' cs₀ cs cs' pieces₀ known pieces kept full) (member : o ∈ known) :
    h.placeOf o.start = h.spaces.image o :=
  Heap.placeOf_eq cycle.traced.shared.held (cycle.traced.closing.kept.base o (cycle.knows.known o member).1)

/-- A reference that was brought up to date. -/
theorem placeOf_settled (cycle : Cycle h₀ h₁ h h' cs₀ cs cs' pieces₀ known pieces kept full) (settled : Settled known h a b) :
    b = if a = .null then .null else h.placeOf a := by
  rcases settled with ⟨rfl, rfl⟩ | ⟨q, member, rfl, -, rfl⟩
  · rw [if_pos rfl]
  · rw [if_neg (cycle.knows.known q member).2.2, cycle.placeOf_eq member]

/-- An object is in the space that is emptied if its address is. -/
theorem home_iff (cycle : Cycle h₀ h₁ h h' cs₀ cs cs' pieces₀ known pieces kept full) (member : o ∈ known) :
    (h₀.spaces.space h₀.current).extent.holds o.start = true ↔ o.home = h₀.current := by
  have there := (cycle.knows.known o member).1
  have held := cycle.quiet.held
  obtain ⟨low, high⟩ := held.inside there
  constructor
  · exact fun holds => (held.estate.laid.unique holds low high).symm
  · intro home
    rw [← home]
    exact Extent.holds_iff.mpr ⟨low, high⟩

end Heap.Cycle

/-- After a collection that completes, whatever it covers, with any number of collectors and in any order of their steps,
the program finds the graph that it had: every object that was not in the nursery or the half that is emptied is where it
was, and every other one is somewhere else. -/
theorem World.Reachable.carried {w : World} {group : Array Collector} {c' : Crew} {h' : Heap} (reachable : w.Reachable)
    (there : w.heap.collectors = some group) (run : Crew.Run (.ofCollectors group, w.heap.stopped) (c', h'))
    (complete : c'.isOver = true) : ∃ f, w.Carried (h'.resumed c') f := by
  obtain ⟨pieces₀, known, sound⟩ := reachable.sound
  obtain ⟨c, h, traced, closure, rest⟩ := sound.passes there run complete
  obtain ⟨h₁, pieces, kept, full, cycle, -⟩ := sound.cycle there closure traced rest complete
  obtain ⟨tally, demand, disabled, resumes, resumed⟩ := h'.resumed_eq c'
  rw [resumed]
  have known_of_leads : ∀ a, w.heap.Leads a → ∃ o ∈ known, o.start = a ∧ h.Done o := fun a leads =>
    cycle.done_of_leads (leads.congr rfl rfl)
  refine ⟨h.placeOf, ?_, ?_, ?_, ?_, ?_, ?_⟩
  · intro a before b after same
    obtain ⟨o, member, rfl, -⟩ := known_of_leads a before
    obtain ⟨q, member', rfl, -⟩ := known_of_leads b after
    rw [cycle.placeOf_eq member, cycle.placeOf_eq member'] at same
    rw [cycle.traced.closing.kept.injective o member q member' same]
  · obtain ⟨size, each⟩ := cycle.roots
    refine Array.ext (size.trans Array.size_map.symm) fun i inside inside' => ?_
    have before : i < w.heap.program.roots.size := by simpa using inside'
    rw [Array.getElem_map]
    exact cycle.placeOf_settled (each i _ _ (Array.getElem?_eq_getElem before) (Array.getElem?_eq_getElem inside))
  · intro a leads i inside
    obtain ⟨o, member, rfl, done⟩ := known_of_leads a leads
    rw [cycle.placeOf_eq member]
    exact cycle.placeOf_settled (cycle.field member done inside)
  · intro a leads
    obtain ⟨o, member, rfl, done⟩ := known_of_leads a leads
    obtain ⟨inside, object, -⟩ := sound.knows.known o member
    rw [cycle.placeOf_eq member]
    exact ⟨o.tenant, (sound.tenants _).mpr ⟨o, inside, rfl⟩, rfl, object, cycle.alike member done⟩
  · intro a leads outside
    obtain ⟨o, member, rfl, done⟩ := known_of_leads a leads
    have stays : ¬ h.spaces.Evacuates o.home := fun moves =>
      absurd (outside.symm.trans ((cycle.home_iff member).mpr ((cycle.evacuates _).mp moves))) Bool.false_ne_true
    rw [cycle.placeOf_eq member]
    exact cycle.traced.shared.tracked.image_eq cycle.traced.shared.held
      (cycle.traced.closing.kept.base o (sound.knows.known o member).1) stays
  · intro a leads inside
    obtain ⟨o, member, rfl, done⟩ := known_of_leads a leads
    have moves : h.spaces.Evacuates o.home := (cycle.evacuates _).mpr ((cycle.home_iff member).mp inside)
    obtain ⟨r, there, start, -, -, either⟩ := cycle.sifted.images o member done
    rw [cycle.placeOf_eq member, ← start]
    rcases either with ⟨-, stays⟩ | ⟨-, home, -⟩
    · exact absurd moves stays
    · obtain ⟨low, high⟩ := cycle.settled.held.inside there
      refine Bool.eq_false_iff.mpr fun holds => cycle.traced.shared.still ((cycle.evacuates _).mpr ?_)
      rw [cycle.extent] at low high
      exact home ▸ (sound.quiet.held.estate.laid.unique holds low high).symm

/-- In the first program, the large object stays and the young one that it refers to becomes a mature one. -/
theorem World.sample_carried : ∃ f, World.sample.Carried ((sample.rounds 22).2.resumed (sample.rounds 22).1) f ∧
    f largeAt = largeAt ∧ f youngAt = ⟨139637884518400⟩ := by
  obtain ⟨f, carried⟩ := sample_reachable.carried sample_manned sample_run sample_over
  have large : sample.heap.Leads largeAt := .root (by decide +kernel) (by decide)
  have stays : f largeAt = largeAt := carried.still _ large (by decide +kernel)
  have field := carried.fields _ large 0 (by decide +kernel)
  have refers : sample.heap.memory.field largeAt 0 = youngAt := by decide +kernel
  rw [refers, if_neg (by decide), stays] at field
  exact ⟨f, carried, stays, field.symm.trans (by decide +kernel)⟩

end TracingHeap
